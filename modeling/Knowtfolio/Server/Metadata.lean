import Knowtfolio.Contract.Custody
import Knowtfolio.Data.JsonValue
import Knowtfolio.Data.Url
import Knowtfolio.Server.Agreement
import Knowtfolio.Server.Updates

/-!
# The metadata of the tokens

A token is described by a document in JSON (`NFTMetadata.toJSON`), which
`CreateForArticle` uploads after it has submitted the mint. Whoever has a token asks the
contract for its URI and the URI for the document: the distribution of `/nfts/*` appends
`.json` to the path, which is then the key of the upload (`servedKey`).

The URI of every token is the key of its article's metadata, and what is found there is
that metadata, whoever has uploaded it and however often; neither ever changes
(`metadata_stays`). It is found as soon as the article is stored as tokenized
(`metadata_of_tokenURI`). Of a token alone this does not follow, as the upload may have
failed after the mint.

Assumed of S3 is that what was uploaded last under a key is what is answered for the key.

What is in the history stays there, so that an upload is never lost (`Uploaded.mono`). The
invariant of the tables (`Published`) says of every article that is stored, or held in memory, as
tokenized that its metadata was uploaded before; that of the chain (`TokensOfArticles`) says of
every token, and every pending mint, whose article it is.
-/

namespace Knowtfolio

open Interaction Machine

/-! ## What is uploaded -/

/-- The members of the metadata, those of `NFTMetadata` before those of its alias. -/
def NFTMetadata.members (m : NFTMetadata) : List (String × String) :=
  [("name", m.name), ("description", m.description), ("external_url", m.externalURL),
    ("image", m.image)]

/-- `ToJSON`. -/
def NFTMetadata.toJSON (m : NFTMetadata) : String := String.ofList (Json.writeObject m.members)

/-- What is uploaded is read as the metadata. -/
theorem NFTMetadata.parse_toJSON (m : NFTMetadata) :
    Json.parse m.toJSON = .ok (.object (m.members.map fun p => (p.1, .string p.2))) :=
  Json.parse_of_written (Json.written_writeObject m.members)

/-- The metadata of an article, as whoever fetches it reads it. -/
def metadataValue (id : String) : Json.Value :=
  .object [("name", .string ("Knowtfolio Article " ++ id)),
    ("description", .string (
      "The owner of this token has ownership and editorial rights to article " ++ id ++
        " on Knowtfolio.")),
    ("external_url", .string ("https://knowtfolio.com/articles/" ++ id)),
    ("image", .string "https://i.imgur.com/n9peHW2.png")]

/-- What is uploaded is JSON, and reads as the metadata of the article. -/
theorem parse_newNFTMetadata (a : Article) :
    Json.parse (newNFTMetadata a).toJSON = .ok (metadataValue a.id) :=
  NFTMetadata.parse_toJSON _

/-- The metadata depends on the id only: no revision of the article changes it. -/
theorem newNFTMetadata_congr {a b : Article} (h : a.id = b.id) :
    newNFTMetadata a = newNFTMetadata b := by
  obtain ⟨_, _, _, _⟩ := a
  obtain ⟨_, _, _, _⟩ := b
  cases h
  rfl

/-- The key that the metadata of the article is uploaded under. -/
def metadataKey (id : String) : String := "nfts/" ++ id ++ ".json"

/-- No two articles share an object. -/
theorem metadataKey_injective {id id' : String} (h : metadataKey id = metadataKey id') :
    id = id' := by
  have hlist := congrArg String.toList h
  rw [metadataKey, metadataKey] at hlist
  simp only [String.toList_append, List.append_assoc, List.append_cancel_left_eq,
    List.append_cancel_right_eq] at hlist
  exact String.toList_inj.1 hlist

/-! ## Where a URI leads -/

/-- The handler of the distribution, `appendDotJson.js`. -/
def appendDotJson (uri : List UInt8) : List UInt8 := uri ++ Hex.utf8 ".json"

/-- The origin of the distribution. -/
def cdnOrigin : String := "https://knowtfolio.com"

/-- The key of the object that the distribution asks for, if the URL is one of the pattern
    `/nfts/*`. -/
def servedKey (url : String) : Option (List UInt8) :=
  (Url.pathOf cdnOrigin url).bind fun uri =>
    if (Hex.utf8 "/nfts/").isPrefixOf uri then
      some (Url.percentDecode ((appendDotJson uri).drop 1))
    else none

/-- A character of an id is one byte, which has no meaning in an address. -/
theorem utf8EncodeChar_of_isIDChar {c : Char} (h : isIDChar c = true) :
    ∃ b : UInt8, String.utf8EncodeChar c = [b] ∧ b < 128 ∧ Url.isUnescaped b = true ∧
      Url.isPathByte b = true ∧ b ≠ 47 := by
  have hlt : c.toNat < 128 := by
    have hid : (((c.isUpper || c.isLower) || c.isDigit) || decide (c = '_') ||
        decide (c = '-')) = true := h
    simp only [Bool.or_eq_true, decide_eq_true_eq] at hid
    rcases hid with (((hupper | hlower) | hdigit) | rfl) | rfl
    · exact Nat.lt_of_le_of_lt (of_decide_eq_true hupper).2 (by decide)
    · exact Nat.lt_of_le_of_lt (of_decide_eq_true (Bool.and_eq_true_iff.1 hlower).2) (by decide)
    · exact Nat.lt_of_le_of_lt (Char.isDigit_iff_toNat.1 hdigit).2 (by decide)
    · decide
    · decide
  have hall : ∀ n < 128, isIDChar (Char.ofNat n) = true → UInt8.ofNat n < 128 ∧
      Url.isUnescaped (UInt8.ofNat n) = true ∧ Url.isPathByte (UInt8.ofNat n) = true ∧
      UInt8.ofNat n ≠ 47 := by decide
  have hc : Char.ofNat c.toNat = c := Char.ofNat_toNat c
  obtain ⟨hb, hrest⟩ := hall c.toNat hlt (hc.symm ▸ h)
  refine ⟨UInt8.ofNat c.toNat, ?_, hb, hrest⟩
  have hbyte : (UInt8.ofNat c.toNat).toNat = c.toNat :=
    UInt8.toNat_ofNat_of_lt' (Nat.lt_trans hlt (by decide))
  have := Hex.utf8EncodeChar_ofNat hb
  rwa [hbyte, hc] at this

/-- The characters of ids stand for themselves in a URL, and none of them is a slash. -/
theorem isUnescaped_of_mem_id {id : ArticleID} {b : UInt8} (hb : b ∈ Hex.utf8 id.1) :
    b < 128 ∧ Url.isUnescaped b = true ∧ Url.isPathByte b = true ∧ b ≠ 47 := by
  rw [← String.ofList_toList (s := id.1), Hex.utf8_ofList, List.mem_flatMap] at hb
  obtain ⟨c, hc, hb⟩ := hb
  obtain ⟨b', hencode, hrest⟩ := utf8EncodeChar_of_isIDChar (List.all_eq_true.1 id.2.2 c hc)
  rw [hencode, List.mem_singleton] at hb
  exact hb ▸ hrest

/-- An id has eleven bytes. -/
theorem length_utf8_id (id : ArticleID) : (Hex.utf8 id.1).length = 11 := by
  have hlength : ∀ l : List Char, (∀ c ∈ l, isIDChar c = true) →
      (l.flatMap String.utf8EncodeChar).length = l.length := by
    intro l hl
    induction l with
    | nil => rfl
    | cons c l ih =>
      rw [List.forall_mem_cons] at hl
      obtain ⟨b, hb, -⟩ := utf8EncodeChar_of_isIDChar hl.1
      rw [List.flatMap_cons, hb, List.length_append, ih hl.2]
      exact Nat.add_comm _ _
  rw [← String.ofList_toList (s := id.1), Hex.utf8_ofList, hlength _ (List.all_eq_true.1 id.2.2)]
  exact id.2.1

/-- The path of an id is plain. -/
theorem isPlain_nfts (id : ArticleID) : Url.IsPlain (Hex.utf8 ("nfts/" ++ id.1)) := by
  -- An id has no slash in it, so that the path has the two segments that it is made of.
  have hsplit : (Hex.utf8 ("nfts/" ++ id.1)).splitOnP (· = 47) =
      [Hex.utf8 "nfts", Hex.utf8 id.1] := by
    have hid : (Hex.utf8 id.1).splitOnP (· = 47) = [Hex.utf8 id.1] := by
      have h : (Hex.utf8 id.1 ++ []).splitOnP (· = 47) = _ := Url.splitOnP_append_of_forall
        fun b hb => decide_eq_false (isUnescaped_of_mem_id hb).2.2.2
      simpa using h
    have hnfts : Hex.utf8 "nfts/" = Hex.utf8 "nfts" ++ [47] := by decide
    have hall : (Hex.utf8 "nfts").all (· ≠ 47) = true := by decide
    have hne : ∀ b ∈ Hex.utf8 "nfts", decide (b = 47) = false := fun b hb =>
      decide_eq_false (of_decide_eq_true (List.all_eq_true.1 hall b hb))
    rw [Hex.utf8_append, hnfts, List.append_assoc, Url.splitOnP_append_of_forall hne,
      List.singleton_append, List.splitOnP_cons_eq_if_modifyHead, if_pos (by decide), hid]
    simp
  refine ⟨fun b hb => ?_, fun s hs => ?_⟩
  · have hall : (Hex.utf8 "nfts/").all Url.isPathByte = true := by decide
    rw [Hex.utf8_append, List.mem_append] at hb
    rcases hb with hb | hb
    · exact List.all_eq_true.1 hall b hb
    · exact (isUnescaped_of_mem_id hb).2.2.1
  · rw [hsplit, List.mem_pair] at hs
    -- No segment is made of dots: an id is longer than that.
    rcases hs with rfl | rfl
    · decide
    · constructor <;> intro heq <;> have := congrArg List.length heq <;>
        rw [length_utf8_id] at this <;> cases this

/-- The URI of a token whose article has the id leads to the key of its metadata. -/
theorem servedKey_baseURI (id : ArticleID) :
    servedKey (Contract.baseURI ++ id.1) = some (Hex.utf8 (metadataKey id.1)) := by
  have hbase : Contract.baseURI ++ id.1 = cdnOrigin ++ "/" ++ ("nfts/" ++ id.1) := by
    rw [← String.append_assoc]
    rfl
  -- Nothing of the URI would be encoded.
  have hunescaped : ∀ b ∈ Hex.utf8 ("nfts/" ++ id.1), Url.isUnescaped b = true := by
    intro b hb
    have hall : (Hex.utf8 "nfts/").all Url.isUnescaped = true := by decide
    rw [Hex.utf8_append, List.mem_append] at hb
    rcases hb with hb | hb
    · exact List.all_eq_true.1 hall b hb
    · exact (isUnescaped_of_mem_id hb).2.1
  have hascii : ∀ b ∈ Hex.utf8 (Contract.baseURI ++ id.1), Url.isUnescaped b = true := by
    intro b hb
    have hall : (Hex.utf8 (cdnOrigin ++ "/")).all Url.isUnescaped = true := by decide
    rw [hbase, Hex.utf8_append, List.mem_append] at hb
    rcases hb with hb | hb
    · exact List.all_eq_true.1 hall b hb
    · exact hunescaped b hb
  have hencode : Url.encodeURI (Contract.baseURI ++ id.1) = Contract.baseURI ++ id.1 := by
    apply Hex.utf8_injective
    rw [Url.utf8_encodeURI, Url.escaped_of_isUnescaped hascii]
  have hpath : Url.pathOf cdnOrigin (Contract.baseURI ++ id.1) =
      some (47 :: Hex.utf8 ("nfts/" ++ id.1)) := by
    rw [← hencode, hbase, Url.pathOf_encodeURI (List.all_eq_true.1 (by decide)),
      Url.plainPath_eq_iff.2 (isPlain_nfts id), Url.escaped_of_isUnescaped]
    exact List.forall_mem_cons.2 ⟨by decide, hunescaped⟩
  have hprefix : (Hex.utf8 "/nfts/").isPrefixOf (47 :: Hex.utf8 ("nfts/" ++ id.1)) = true := by
    rw [List.isPrefixOf_iff_prefix, Hex.utf8_append]
    exact ⟨Hex.utf8 id.1, by rfl⟩
  have hkey : (appendDotJson (47 :: Hex.utf8 ("nfts/" ++ id.1))).drop 1 =
      Hex.utf8 (metadataKey id.1) := by
    rw [appendDotJson, metadataKey, Hex.utf8_append ("nfts/" ++ id.1)]
    rfl
  have hdecode : Url.percentDecode (Hex.utf8 (metadataKey id.1)) = Hex.utf8 (metadataKey id.1) := by
    have hall : ∀ b ∈ Hex.utf8 (metadataKey id.1), Url.isUnescaped b = true := by
      intro b hb
      have hjson : (Hex.utf8 ".json").all Url.isUnescaped = true := by decide
      rw [metadataKey, Hex.utf8_append, List.mem_append] at hb
      rcases hb with hb | hb
      · exact hunescaped b hb
      · exact List.all_eq_true.1 hjson b hb
    conv_lhs => rw [← Url.escaped_of_isUnescaped hall]
    exact Url.percentDecode_escaped _
  rw [servedKey, hpath, Option.bind_some, if_pos hprefix, hkey, hdecode]

/-! ## What is asked before a commit -/

/-- The uploads. -/
def Op.isUpload : Op → Bool
  | upload _ _ => true
  | _ => false

/-- An upload is one of the metadata of the article that was loaded, as it was marshalled, and
    the request commits the article only after the upload. -/
def Publishes (request : Request) (l : Log) : Op → Prop
  | .upload key body => ∃ articleID address signature target,
      request = .createForArticle articleID address signature ∧
      answered (.first articleID false) target ∈ l ∧ key = metadataKey target.id ∧
      answered (.marshal (newNFTMetadata target)) body ∈ l
  | .commit a => request.isCreateForArticle = true →
      ∃ body, answered (.upload (metadataKey a.id) body) () ∈ l
  | _ => True

section

variable [Environment] {request : Request} {l : Log}

omit [Environment] in
/-- Nothing is asked of calls that neither upload nor commit a tokenization. -/
theorem publishes_of_not {o : Op} (hupload : o.isUpload = false)
    (hcommit : o.isCommit = true → request.isCreateForArticle = false) :
    Publishes request l o := by
  cases o with
  | upload key body => cases hupload
  | commit a =>
    intro h
    rw [hcommit rfl] at h
    cases h
  | _ => trivial

/-- The programs that do not upload. -/
abbrev UploadsNothing {α : Type} (p : Prog α) : Prop :=
  Program.AsksOnly (S := calls) (fun o : Op => o.isUpload = false) p

omit [Environment] in
/-- What only looks up uploads nothing. -/
theorem uploadsNothing_of_onlyLooksUp {α : Type} {p : Prog α} (h : OnlyLooksUp p) :
    UploadsNothing p :=
  h.mono fun o ho => by cases o <;> first | rfl | cases ho

omit [Environment] in
/-- Nor does drawing an id. -/
theorem uploadsNothing_generateID : UploadsNothing generateID :=
  Program.asksOnly_ask.2 ⟨rfl, fun r => by cases r <;> exact Program.asksOnly_ret⟩

/-- Nor does asking who may edit. -/
theorem uploadsNothing_authorizeEdit (editorID : String) (target : Article) (requireNFT : Bool) :
    UploadsNothing (authorizeEdit editorID target requireNFT) :=
  uploadsNothing_of_onlyLooksUp (onlyLooksUp_authorizeEdit _ _ _)

omit [Environment] in
/-- Nor does loading what is to be deleted. -/
theorem uploadsNothing_deleteTarget (id : ArticleID) (r : Except Err Article) :
    UploadsNothing (deleteTarget id r) := by
  rcases r with e | target
  · cases e with
    | recordNotFound => exact Program.asksOnly_throw
    | _ => exact Program.asksOnly_ret
  · exact Program.asksOnly_ret

omit [Environment] in
/-- A call that is no upload uploads nothing. -/
theorem uploadsNothing_call {o : Op} (h : o.isUpload = false) : UploadsNothing (call o) :=
  asksOnly_call h

/-- Nothing but tokenizing uploads metadata. -/
theorem uploadsNothing_serve (h : request.isCreateForArticle = false) :
    UploadsNothing (serve request) := by
  -- Program by program, call by call: none of the calls uploads.
  cases request with
  | create userID title content =>
    refine Program.AsksOnly.bind ?_ fun _ => Program.asksOnly_ret
    refine uploadsNothing_generateID.bind fun id =>
      uploadsNothing_generateID.bind fun documentID => ?_
    exact (uploadsNothing_call (o := .create _) rfl).bind fun _ => Program.asksOnly_ret
  | read id =>
    refine Program.AsksOnly.bind ?_ fun _ => Program.asksOnly_ret
    refine (asksOnly_mapErr (asksOnly_preloadFirst (q := fun o : Op => o.isUpload = false) rfl
      fun _ => rfl)).bind fun target => ?_
    refine (uploadsNothing_of_onlyLooksUp (onlyLooksUp_getOwnerAddressOf target)).bind fun owner => ?_
    cases owner with
    | some a =>
      exact (uploadsNothing_of_onlyLooksUp (onlyLooksUp_getIDByAddress a)).bind
        fun _ => Program.asksOnly_ret
    | none =>
      exact (uploadsNothing_of_onlyLooksUp (onlyLooksUp_findAddressByID _)).bind
        fun _ => Program.asksOnly_ret
  | update userID id title content =>
    refine Program.AsksOnly.bind (Program.AsksOnly.bind (asksOnly_mapErr ?_)
      fun _ => Program.asksOnly_ret) fun _ => Program.asksOnly_ret
    refine (uploadsNothing_call (o := .begin) rfl).bind fun _ => ?_
    refine (uploadsNothing_call (o := .first _ _) rfl).bind fun target => ?_
    refine (uploadsNothing_authorizeEdit _ target _).bind fun _ => ?_
    refine (uploadsNothing_call (o := .save _) rfl).bind fun _ => ?_
    exact (uploadsNothing_call (o := .commit _) rfl).bind fun _ => Program.asksOnly_ret
  | delete userID id =>
    refine Program.AsksOnly.bind (Program.asksOnly_ask.2 ⟨rfl, fun r => ?_⟩)
      fun _ => Program.asksOnly_ret
    refine (uploadsNothing_deleteTarget id r).bind fun target => ?_
    refine (uploadsNothing_authorizeEdit _ target _).bind fun _ => ?_
    exact (uploadsNothing_call (o := .delete _) rfl).bind fun _ => Program.asksOnly_ret
  | createForArticle articleID address signature => cases h
  | search request =>
    exact (uploadsNothing_of_onlyLooksUp (onlyLooksUp_searchForArticles request)).bind
      fun _ => Program.asksOnly_ret
  | putUserWallet userID walletAddress =>
    refine Program.AsksOnly.bind ?_ fun _ => Program.asksOnly_ret
    refine (asksOnly_mapErr (uploadsNothing_call (o := .generateNonce) rfl)).bind fun nonce => ?_
    exact asksOnly_mapErr (uploadsNothing_call (o := .transactWriteItems _) rfl)

/-- The calls before the metadata is marshalled: they neither upload nor commit. -/
abbrev OnlyPrepares {α : Type} (p : Prog α) : Prop :=
  Program.AsksOnly (S := calls) (fun o : Op => o.isUpload = false ∧ o.isCommit = false) p

/-- To authenticate a request is only to prepare. -/
theorem onlyPrepares_authenticate (address signature : String) :
    OnlyPrepares (authenticate address signature) :=
  (asksOnly_authenticate address signature).mono fun o ho => by
    cases o <;> first | exact ⟨rfl, rfl⟩ | cases ho

/-- So is to submit the mint. -/
theorem onlyPrepares_submitMint (address : String) (target : Article) :
    OnlyPrepares (submitMint address target) :=
  (asksOnly_submitMint address target).mono fun o ho => by
    cases o <;> first | exact ⟨rfl, rfl⟩ | cases ho

omit [Environment] in
/-- What is stored as tokenized is uploaded before, as it was loaded. -/
theorem wp_publishes_storeTokenized {articleID : ArticleID} {address signature : String}
    {target : Article} (hfirst : answered (.first articleID false) target ∈ l) :
    Program.wp (Publishes (.createForArticle articleID address signature)) (fun _ _ => True) l
      (storeTokenized target) := by
  refine wp_call_bind.2 ⟨trivial, fun _ => trivial, fun json => ?_⟩
  refine wp_call_bind.2 ⟨?_, fun _ => trivial, fun _ => ?_⟩
  · exact ⟨articleID, address, signature, target, rfl, by simp [hfirst], rfl, by simp⟩
  refine wp_call_bind.2 ⟨trivial, fun _ => trivial, fun _ => ?_⟩
  refine (wp_call (o := .commit _)).2 ⟨fun _ => ⟨json, ?_⟩, fun _ => trivial, fun _ => trivial⟩
  simp only [List.mem_append, List.mem_singleton]
  exact .inl (.inr rfl)

/-- A request uploads metadata of the article that it tokenizes only, and commits it as tokenized
    after that. -/
theorem serve_publishes (request : Request) :
    (serve request).wp (Publishes request) (fun _ _ => True) [] := by
  by_cases hr : request.isCreateForArticle = true
  · cases request with
    | createForArticle articleID address signature =>
      -- What comes before the load, and between it and the upload, neither uploads nor commits.
      have hprepares : ∀ {α : Type} {p : Prog α} {l : Log} {Q : Log → Except Fault α → Prop},
          OnlyPrepares p → (∀ l' r, Q (l ++ l') r) →
          Program.wp (Publishes (.createForArticle articleID address signature)) Q l p :=
        fun hp hQ => hp.wp (fun _ o ho => publishes_of_not ho.1 fun h => by
          rw [ho.2] at h
          cases h) fun l' r _ => hQ l' r
      refine Program.wp_bind_ret (Q := fun _ _ => True) ?_ (fun _ _ h => h) fun _ _ h => h
      refine Program.wp_bind.2 (hprepares (onlyPrepares_authenticate _ _) ?_)
      rintro l (e | u)
      · trivial
      refine wp_call_bind.2 ⟨trivial, fun _ => trivial, fun _ => ?_⟩
      refine Program.wp_bind.2 (wp_mapErr.2 ((wp_call (o := .first _ _)).2
        ⟨trivial, fun _ => trivial, fun target => ?_⟩))
      refine Program.wp_bind.2 (hprepares (onlyPrepares_submitMint _ _) ?_)
      rintro l' (e | t)
      · trivial
      refine Program.wp_bind.2 (Program.wp_mono (fun _ _ h => h) ?_ (wp_publishes_storeTokenized
        (List.mem_append_left _ (List.mem_append_right _ (List.mem_singleton.2 rfl)))))
      rintro l'' (e | u) -
      · trivial
      · exact Program.wp_ret.2 trivial
    | _ => cases hr
  · rw [Bool.not_eq_true] at hr
    exact (uploadsNothing_serve hr).wp (fun _ o ho => publishes_of_not ho fun _ => hr)
      fun _ _ _ => trivial

end

/-! ## Runs -/

/-- The body that an event uploads under the key, if it is an upload that succeeds. -/
def uploaded [Environment] (key : List UInt8) : server.Event → Option String
  | .asked _ ⟨.upload key' body, .ok _⟩ => if Hex.utf8 key' = key then some body else none
  | _ => none

section

variable [Environment] {ok : server.Config → server.Move → Prop} {c c' : server.Config}
  {id : String}

/-- What S3 answers for the key: what was uploaded last. -/
def objectAt (h : List server.Event) (key : List UInt8) : Option String :=
  (h.filterMap (uploaded key)).getLast?

/-- The metadata of a token, by its URI. -/
def fetchMetadata (c : server.Config) (url : String) : Option String :=
  (servedKey url).bind (objectAt c.history)

/-- What is marshalled is the text of the metadata. -/
def marshals (c : server.Config) : server.Move → Bool
  | .step i (.json s) =>
    match c.asking i with
    | some (_, _, .marshal m) => s = m.toJSON
    | _ => true
  | _ => true

/-- The mints are fewer than the counter can count, and the metadata is what is marshalled. -/
def publishes (c : server.Config) (m : server.Move) : Bool := boundedMints c m && marshals c m

/-- An event leaves an object if it is an upload to its key. -/
theorem uploaded_eq_some {key : List UInt8} {x : server.Event} {body : String} :
    uploaded key x = some body ↔
      ∃ i key', x = .asked i (answered (.upload key' body) ()) ∧ Hex.utf8 key' = key := by
  constructor
  · intro h
    unfold uploaded at h
    split at h
    next i key' body' v =>
      split_ifs at h with hkey
      cases h
      exact ⟨i, key', rfl, hkey⟩
    next => cases h
  · rintro ⟨i, key', rfl, hkey⟩
    exact if_pos hkey

/-- What is answered was uploaded. -/
theorem mem_history_of_objectAt {h : List server.Event} {key : List UInt8} {body : String}
    (hbody : objectAt h key = some body) :
    ∃ i key', .asked i (answered (.upload key' body) ()) ∈ h ∧ Hex.utf8 key' = key := by
  obtain ⟨x, hx, hup⟩ := List.mem_filterMap.1 (List.mem_of_getLast? hbody)
  obtain ⟨i, key', rfl, hkey⟩ := uploaded_eq_some.1 hup
  exact ⟨i, key', hx, hkey⟩

/-- The metadata of the article was uploaded. -/
def Uploaded (c : server.Config) (id : String) : Prop :=
  ∃ i body, .asked i (answered (.upload (metadataKey id) body) ()) ∈ c.history

/-- What was uploaded stays so. -/
theorem Uploaded.mono (hsub : c.history ⊆ c'.history) (h : Uploaded c id) : Uploaded c' id :=
  let ⟨i, body, hi⟩ := h; ⟨i, body, hsub hi⟩

/-- Where metadata was uploaded, there is an object: objects are replaced, never removed. -/
theorem Uploaded.exists_object (h : Uploaded c id) :
    ∃ body, objectAt c.history (Hex.utf8 (metadataKey id)) = some body := by
  obtain ⟨i, body, hi⟩ := h
  have hmem : body ∈ c.history.filterMap (uploaded (Hex.utf8 (metadataKey id))) :=
    List.mem_filterMap.2 ⟨_, hi, uploaded_eq_some.2 ⟨i, _, rfl, rfl⟩⟩
  exact ⟨_, List.getLast?_eq_some_getLast (List.ne_nil_of_mem hmem)⟩

/-- What was marshalled is the metadata, as JSON text. -/
theorem marshalled (hok : ∀ (c : server.Config) m, ok c m → marshals c m = true) (h : Run ok c)
    {i : ℕ} {m : NFTMetadata} {s : String}
    (hs : .asked i (answered (.marshal m) s) ∈ c.history) : s = m.toJSON := by
  obtain ⟨c₁, t, k, ch, w₁, -, hm, ht, hk, hx, -⟩ := h.asked_move hs
  have hch : ch = .json s := by
    cases ch with
    | json s' => cases hx; rfl
    | _ => cases hx
  subst hch
  have := hok _ _ hm
  simpa [marshals, Config.asking_of_rest ht hk] using this

/-- Whatever is found under a key of metadata is the metadata of its article. -/
theorem metadata_of_uploaded (hok : ∀ (c : server.Config) m, ok c m → marshals c m = true)
    (h : Run ok c) {i : ℕ} {key body : String}
    (hup : .asked i (answered (.upload key body) ()) ∈ c.history) :
    ∃ target : Article, key = metadataKey target.id ∧ body = (newNFTMetadata target).toJSON := by
  obtain ⟨t, ht, hmem⟩ := h.exists_thread hup
  obtain ⟨l₁, l₂, hl⟩ := List.append_of_mem hmem
  have hpub : Publishes t.request l₁ (.upload key body) :=
    h.asked_wp serve_publishes i t ht l₁ _ l₂ hl
  obtain ⟨_, _, _, target, _, _, hkey, hmarshal⟩ := hpub
  refine ⟨target, hkey, marshalled hok h ((h.mem_log ht).1 ?_)⟩
  rw [hl]
  exact List.mem_append_left _ hmarshal

/-! ### What is tokenized was uploaded -/

/-- What is stored or was loaded as tokenized has had its metadata uploaded. -/
structure Published (c : server.Config) : Prop where
  rows : ∀ r ∈ c.world.articles.rows, r.isTokenized = true → Uploaded c r.id
  loaded : ∀ i id p a, .asked i (answered (.first id p) a) ∈ c.history → a.isTokenized = true →
    Uploaded c a.id

/-- A request commits an article as tokenized only after its metadata was uploaded. -/
theorem Published.of_permitted (hc : Published c) (h : Run ok c) {i : ℕ} {t : server.Thread}
    (ht : c.threads[i]? = some t) {l : Log} (hl : l ⊆ t.log) {a : Article}
    (hperm : Permitted t.request l (.commit a)) (hpub : Publishes t.request l (.commit a))
    (hflag : a.isTokenized = true) : Uploaded c a.id := by
  rcases hperm with ⟨_, id, _, _, target, hreq, hf, rfl⟩ | ⟨id, _, _, target, _, _, hreq, hf, rfl, -⟩
  · exact hc.loaded i id true target ((h.mem_log ht).1 (hl hf)) hflag
  · obtain ⟨body, hbody⟩ := hpub (by rw [hreq]; rfl)
    exact ⟨i, body, (h.mem_log ht).1 (hl hbody)⟩

/-- A step keeps it that every article stored as tokenized has its metadata, if it stores none that
    has not. -/
theorem Published.of_unchanged (hc : Published c) (hsub : c.history ⊆ c'.history)
    (harticles : ∀ r ∈ c'.world.articles.rows, r ∈ c.world.articles.rows ∨
      (r.isTokenized = true → Uploaded c r.id))
    (hloaded : ∀ i id p a, .asked i (answered (.first id p) a) ∈ c'.history →
      .asked i (answered (.first id p) a) ∈ c.history ∨ a.row ∈ c.world.articles.rows) :
    Published c' where
  rows r hr hflag := by
    rcases harticles r hr with hr | hup
    · exact (hc.rows r hr hflag).mono hsub
    · exact (hup hflag).mono hsub
  loaded i id p a ha hflag := by
    rcases hloaded i id p a ha with ha | ha
    · exact (hc.loaded i id p a ha hflag).mono hsub
    · exact (hc.rows a.row ha hflag).mono hsub

/-- In every run, the metadata of what is stored as tokenized has been uploaded. -/
theorem published (h : Run ok c) : Published c := by
  refine h.induction Published ⟨?_, ?_⟩ ?_ ?_ ?_
  · exact fun r hr => absurd hr Keyed.Table.not_mem_empty
  · exact fun i id p a ha => absurd ha List.not_mem_nil
  · intro c r _ hc _
    exact hc.of_unchanged (List.subset_append_left _ _) (fun _ hr => .inl hr)
      fun i id p a ha => .inl (by simpa using ha)
  · intro c i ch t o k ans w' hrun hc _ ht hk he
    -- A row that is new was written by this step; an article that is loaded is a row.
    refine hc.of_unchanged (List.subset_append_left _ _) (fun r hr => ?_) fun j id p a ha => ?_
    · rcases World.exec_cases he with ⟨e, rfl, rfl⟩ | ⟨v, rfl, heff⟩
      · exact .inl hr
      rcases World.mem_articles heff hr with ⟨hr, -⟩ | ⟨a, rfl, rfl⟩ | ⟨a, rfl, rfl⟩
      · exact .inl hr
      · -- An article is not created as tokenized.
        obtain ⟨-, _, _, _, _, _, -, rfl, -⟩ := asks_of_rest hrun ht hk
        exact .inr fun hflag => by cases hflag
      · have hwp := hrun.rest_wp serve_publishes ht
        rw [hk] at hwp
        exact .inr (hc.of_permitted hrun ht (List.Subset.refl _) (asks_of_rest hrun ht hk).2
          (Program.wp_ask.1 hwp).1)
    · rcases Config.mem_history_step.1 ha with ha | ha
      · exact .inl ha
      · cases ha
        rcases World.exec_cases he with ⟨e, ⟨⟩, -⟩ | ⟨v, ⟨⟩, heff⟩
        obtain ⟨r, hr, -, rfl⟩ := World.view_first heff.2
        exact .inr hr
  · intro c x w' _ hc _ hx
    have harticles : w'.articles = c.world.articles := World.articles_of_act hx
    exact hc.of_unchanged (List.subset_append_left _ _) (fun r hr => .inl (harticles ▸ hr))
      fun i id p a ha => .inl (by simpa using ha)

/-- The metadata of an article that was committed as tokenized was uploaded. -/
theorem uploaded_of_committedTokenized (h : Run ok c) (hid : CommittedTokenized c id) :
    Uploaded c id := by
  obtain ⟨i, a, ha, hflag, rfl⟩ := hid
  obtain ⟨t, l₁, l₂, ht, hl, -, hperm⟩ := asks_of_asked h ha
  have hsub : l₁ ⊆ t.log := by rw [hl]; exact List.subset_append_left _ _
  exact (published h).of_permitted h ht hsub hperm
    (h.asked_wp serve_publishes i t ht l₁ _ l₂ hl) hflag

/-! ### The articles of tokens -/

/-- The id is one of an article that was created. -/
def IsArticle (c : server.Config) (id : String) : Prop :=
  IsArticleID id ∧ ∃ author, ArticleOf c id author

/-- What was created as an article was so ever after. -/
theorem IsArticle.mono (hsub : c.history ⊆ c'.history) (h : IsArticle c id) : IsArticle c' id :=
  ⟨h.1, let ⟨author, ha⟩ := h.2; ⟨author, ha.mono hsub⟩⟩

/-- The mints, and the tokens, are of articles that were created. -/
structure TokensOfArticles (c : server.Config) : Prop where
  mempool : ∀ p ∈ c.world.mempool, IsArticle c p.articleId
  tokenIdOf : ∀ id, c.world.contract.tokenIdOf id ≠ 0 → IsArticle c id

/-- A mint is of an article that was created, as it was loaded before. -/
theorem isArticle_of_minting (h : Run ok c) {i : ℕ} {t : server.Thread}
    (ht : c.threads[i]? = some t) {gasPrice : ℕ} {recipient : Address}
    {k : calls.Ans (.mintNFT gasPrice recipient id) → Prog Reply}
    (hk : t.rest = .ask (.mintNFT gasPrice recipient id) k) : IsArticle c id := by
  obtain ⟨-, articleID, _, _, target, _, _, _, _, -, -, rfl, hf, -⟩ := asks_of_rest h ht hk
  have hloaded := (consistent h).loaded i _ _ _ ((h.mem_log ht).1 hf)
  exact ⟨hloaded.id_eq ▸ articleID.2, _, hloaded.article⟩

/-- Every token is of an article that was created, whatever else is sent to the contract: others do
    not mint. -/
theorem tokensOfArticles (h : Run ok c) : TokensOfArticles c := by
  refine h.induction TokensOfArticles ⟨nofun, fun id hid => absurd rfl hid⟩ ?_ ?_ ?_
  · intro c r _ hc _
    exact ⟨fun p hp => (hc.mempool p hp).mono (List.subset_append_left _ _),
      fun id hid => (hc.tokenIdOf id hid).mono (List.subset_append_left _ _)⟩
  · -- A mint that is submitted is of an article that was found in the table.
    intro c i ch t o k ans w' hrun hc _ ht hk he
    have hsub : c.history ⊆ (c.step i t ⟨o, ans⟩ (k ans) w').history := List.subset_append_left _ _
    rcases World.exec_cases he with ⟨e, rfl, rfl⟩ | ⟨v, rfl, heff⟩
    · exact ⟨fun p hp => (hc.mempool p hp).mono hsub, fun id hid => (hc.tokenIdOf id hid).mono hsub⟩
    refine ⟨fun p hp => ?_, fun id hid => (hc.tokenIdOf id ?_).mono hsub⟩
    · have hp : p ∈ c.world.mempool ++ o.submitted := heff.changes.mempool ▸ hp
      rcases List.mem_append.1 hp with hp | hp
      · exact (hc.mempool p hp).mono hsub
      · cases o with
        | mintNFT gasPrice recipient id =>
          cases List.mem_singleton.1 hp
          exact (isArticle_of_minting hrun ht hk).mono hsub
        | _ => cases hp
    · have hcontract : w'.contract = c.world.contract := heff.changes.contract
      exact hcontract ▸ hid
  · intro c x w' hrun hc _ hx
    have hsub : c.history ⊆ (c.act x w').history := List.subset_append_left _ _
    obtain ⟨hsettled, howner⟩ := settledContract hrun
    -- A token is made of a mint that was in the pool.
    rcases World.act_cases hx with ⟨k, inner, accepts, p, rfl, hp, rfl⟩ | ⟨k, p, rfl, hp, rfl⟩ |
      ⟨m, rfl, hm, rfl⟩
    · refine ⟨fun q hq => (hc.mempool q (List.eraseIdx_subset hq)).mono hsub, fun id hid => ?_⟩
      have hid : ((p.message inner accepts).apply c.world.contract).tokenIdOf id ≠ 0 := hid
      rcases mine_cases hsettled p inner accepts with ⟨-, heq⟩ | ⟨-, hminted⟩
      · exact (hc.tokenIdOf id (heq ▸ hid)).mono hsub
      · by_cases heq : id = p.articleId
        · exact heq ▸ (hc.mempool p (List.mem_of_getElem? hp)).mono hsub
        · rw [hminted.tokenIdOf, Function.update_of_ne heq] at hid
          exact (hc.tokenIdOf id hid).mono hsub
    · exact ⟨fun q hq => (hc.mempool q (List.eraseIdx_subset hq)).mono hsub,
        fun id hid => (hc.tokenIdOf id hid).mono hsub⟩
    · refine ⟨fun q hq => (hc.mempool q hq).mono hsub, fun id hid => ?_⟩
      have hid : (m.apply c.world.contract).tokenIdOf id ≠ 0 := hid
      rw [(Contract.kept_apply hsettled (by rwa [howner])).tokenIdOf] at hid
      exact (hc.tokenIdOf id hid).mono hsub

/-! ### The metadata of a token -/

/-- The URI of a token is the base URI followed by the article whose token it is. -/
theorem article_of_tokenURI (h : Run (publishes · ·) c) {t : ℕ} {url : String}
    (hurl : c.world.contract.tokenURI t = some url) :
    ∃ id : ArticleID, url = Contract.baseURI ++ id.1 ∧ c.world.contract.getTokenId id = t ∧
      ∃ author, ArticleOf c id author := by
  have hinv := (ownedContract (fun c m hm => (Bool.and_eq_true_iff.1 hm).1) h).inv
  cases howner : c.world.contract.ledger.owners t with
  | none =>
    rw [Contract.State.tokenURI, howner] at hurl
    cases hurl
  | some a =>
    obtain ⟨hpos, -, hne, htoken⟩ := hinv.token t (by rw [howner]; exact Option.some_ne_none a)
    obtain ⟨hid, hauthor⟩ :=
      (tokensOfArticles h).tokenIdOf (c.world.contract.tokenURIs t) (by omega)
    refine ⟨⟨c.world.contract.tokenURIs t, hid⟩, ?_, htoken, hauthor⟩
    rw [Contract.State.tokenURI, howner] at hurl
    simpa [hne, eq_comm] using hurl

/-- The URL of a token leads to the object of its article: the distribution adds `.json`, and
    decodes nothing. -/
theorem fetchMetadata_baseURI (c : server.Config) (id : ArticleID) :
    fetchMetadata c (Contract.baseURI ++ id.1) =
      objectAt c.history (Hex.utf8 (metadataKey id.1)) := by
  rw [fetchMetadata, servedKey_baseURI id, Option.bind_some]

/-- What is found under the key of an article was uploaded, as its metadata. -/
theorem metadata_of_objectAt (h : Run (publishes · ·) c) {body : String}
    (hbody : objectAt c.history (Hex.utf8 (metadataKey id)) = some body) :
    Uploaded c id ∧ ∃ target : Article, target.id = id ∧ body = (newNFTMetadata target).toJSON := by
  obtain ⟨i, key, hup, hkey⟩ := mem_history_of_objectAt hbody
  obtain ⟨target, htarget, hbody⟩ :=
    metadata_of_uploaded (fun c m hm => (Bool.and_eq_true_iff.1 hm).2) h hup
  have hkey := Hex.utf8_injective hkey
  exact ⟨⟨i, body, hkey ▸ hup⟩, target, metadataKey_injective (htarget.symm.trans hkey), hbody⟩

/-- The URI of a token stays as it is. -/
theorem tokenURI_mono (h : Reaches ok c c') {t : ℕ} {url : String}
    (hurl : c.world.contract.tokenURI t = some url) :
    c'.world.contract.tokenURI t = some url := by
  refine h.induction (fun c : server.Config => c.world.contract.tokenURI t = some url) hurl
    (fun c r _ hc _ => hc) ?_ ?_
  · intro c i ch t' o k ans w' _ hc _ _ _ he
    have hcontract : w'.contract = c.world.contract := World.contract_of_exec he
    exact hcontract ▸ hc
  · intro c x w' _ hc _ hx
    rcases World.act_cases hx with ⟨k, inner, accepts, p, rfl, -, rfl⟩ | ⟨k, p, rfl, -, rfl⟩ |
      ⟨m, rfl, -, rfl⟩
    · exact Contract.tokenURI_apply (p.message inner accepts) hc
    · exact hc
    · exact Contract.tokenURI_apply m hc

/-- A token is never burned, its URI never changes, and neither does what is found there, once
    something is, however often the article is tokenized again. -/
theorem metadata_stays (h : Run (publishes · ·) c) (h' : Reaches (publishes · ·) c c') {t : ℕ}
    {url : String} (hurl : c.world.contract.tokenURI t = some url) :
    c'.world.contract.tokenURI t = some url ∧
      ∀ body, fetchMetadata c url = some body → fetchMetadata c' url = some body := by
  refine ⟨tokenURI_mono h' hurl, fun body hbody => ?_⟩
  obtain ⟨id, rfl, -⟩ := article_of_tokenURI h hurl
  rw [fetchMetadata_baseURI] at hbody ⊢
  obtain ⟨hup, target, hid, rfl⟩ := metadata_of_objectAt h hbody
  obtain ⟨body', hbody'⟩ := (hup.mono h'.history_prefix.subset).exists_object
  -- Whatever else was uploaded under the key is the same text.
  obtain ⟨-, target', hid', rfl⟩ := metadata_of_objectAt (h.trans h') hbody'
  rw [hbody', newNFTMetadata_congr (hid'.trans hid.symm)]

end

/-! An article is tokenized, and its mint is mined. -/

section

attribute [local instance] Hardhat.environment

open Hardhat

/-- The metadata of the article. -/
def articleMetadata : NFTMetadata := newNFTMetadata ⟨articleID, .zero, "author", false⟩

/-- The calls of the request `i` after the mint, with the metadata marshalled. -/
def storeMetadata (i : ℕ) : List server.Move :=
  steps i [.json articleMetadata.toJSON, .ok, .ok, .recreate false]

/-- The article has been tokenized, and the first token is its. -/
theorem exists_first_token : ∃ c, Run (publishes · ·) c ∧ CommittedTokenized c articleID ∧
    c.world.contract.tokenURI 1 = some (Contract.baseURI ++ articleID.1) ∧
    ∃ body, fetchMetadata c (Contract.baseURI ++ articleID.1) = some body := by
  obtain ⟨c, hc, hp⟩ := exists_reaches_of_run publishes
    [register 0, createArticle 1, .arrive tokenize :: mint 2, storeMetadata 2,
      [.act (.mine 0 [] true)]].flatten (.initial World.initial)
    (fun c => CommittedTokenized c articleID ∧
      c.world.contract.tokenURI 1 = some (Contract.baseURI ++ articleID.1)) (by decide +kernel)
  obtain ⟨hcommitted, hurl⟩ := of_decide_eq_true hp
  refine ⟨c, hc, hcommitted, hurl, ?_⟩
  rw [fetchMetadata_baseURI]
  exact (uploaded_of_committedTokenized hc hcommitted).exists_object

/-- The token is sold, and its metadata is still found. -/
theorem metadata_stays_of_sell : ∃ c c' url body, Run (publishes · ·) c ∧
    Reaches (publishes · ·) c c' ∧ c.next sell = some c' ∧
    c'.world.contract.tokenURI 1 = some url ∧ fetchMetadata c' url = some body := by
  obtain ⟨c, hc, -, hurl, body, hbody⟩ := exists_first_token
  obtain ⟨c', hn⟩ : ∃ c', c.next sell = some c' := ⟨_, rfl⟩
  have hreaches : Reaches (publishes · ·) c c' := .move .refl rfl hn
  obtain ⟨hurl', hstays⟩ := metadata_stays hc hreaches hurl
  exact ⟨c, c', _, body, hc, hreaches, hn, hurl', hstays body hbody⟩

end

end Knowtfolio
