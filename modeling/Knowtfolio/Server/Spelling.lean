import Knowtfolio.Server.Hardhat
import Knowtfolio.Server.Views

/-!
# The spelling of an address

A request to tokenize an article carries an address, in a text that the API lets through in
any case of its letters. The address is looked up, and minted to, as the twenty bytes that
the text denotes; but the text itself is compared with the spelling of the signer, and with
that of the author. So a request that is signed is refused if its address is in another
spelling (`sameOutcome_iff`).

The program is cut where the text of the address is looked at (`createForArticle_eq`): first the
nonce is looked up and replaced, by the bytes alone; then the signature is verified; then the text
is compared with the author's. Two requests that differ in the spelling do the same until then, and
after that throw different errors, as the errors of calls are not that of the verification
(`Throws`).
-/

namespace Knowtfolio

open Interaction

/-! ## Texts of addresses -/

/-- `^0x[a-fA-F0-9]{40}$`. -/
def MatchesAddress (s : String) : Prop :=
  s.toList.take 2 = ['0', 'x'] ∧ (s.toList.drop 2).length = 40 ∧
    (s.toList.drop 2).all Hex.digitChars.contains = true

instance (s : String) : Decidable (MatchesAddress s) := inferInstanceAs (Decidable (_ ∧ _))

/-- The texts differ in the case of their letters only. -/
def SameLetters (s s' : String) : Prop := s.toList.map Char.toLower = s'.toList.map Char.toLower

instance (s s' : String) : Decidable (SameLetters s s') := inferInstanceAs (Decidable (_ = _))

/-- A text in the format of the API is a prefix and forty digits. -/
theorem MatchesAddress.exists_digits {s : String} (h : MatchesAddress s) :
    ∃ digits, s.toList = '0' :: 'x' :: digits ∧ digits.length = 40 ∧
      ∀ c ∈ digits, c ∈ Hex.digitChars := by
  obtain ⟨hlead, hlength, hdigits⟩ := h
  refine ⟨s.toList.drop 2, ?_, hlength, fun c hc => ?_⟩
  · conv_lhs => rw [← List.take_append_drop 2 s.toList, hlead]
    rfl
  · simpa using List.all_eq_true.1 hdigits c hc

/-- Digits are single bytes. -/
theorem utf8_of_digits {s : String} {digits : List Char} (hs : s.toList = '0' :: 'x' :: digits)
    (hdigits : ∀ c ∈ digits, c ∈ Hex.digitChars) :
    Hex.utf8 s = 48 :: 120 :: digits.map fun c => UInt8.ofNat c.toNat := by
  have hbytes : ∀ l : List Char, (∀ c ∈ l, c ∈ Hex.digitChars) →
      l.flatMap String.utf8EncodeChar = l.map fun c => UInt8.ofNat c.toNat := by
    intro l hl
    induction l with
    | nil => rfl
    | cons c l ih =>
      rw [List.forall_mem_cons] at hl
      rw [List.flatMap_cons, Hex.utf8EncodeChar_of_mem hl.1, ih hl.2]
      rfl
  have hutf8 : Hex.utf8 s = s.toList.flatMap String.utf8EncodeChar := by
    rw [← Hex.utf8_ofList, String.ofList_toList]
  rw [hutf8, hs, List.flatMap_cons, List.flatMap_cons, hbytes digits hdigits]
  rfl

/-- Whatever the case of its letters, a text denotes the same address. -/
theorem hexToAddress_eq {s s' : String} (hs : MatchesAddress s) (hs' : MatchesAddress s')
    (h : SameLetters s s') : hexToAddress s = hexToAddress s' := by
  obtain ⟨digits, hs, hlength, hdigits⟩ := hs.exists_digits
  obtain ⟨digits', hs', hlength', hdigits'⟩ := hs'.exists_digits
  rw [SameLetters, hs, hs'] at h
  have hletters : digits.map Char.toLower = digits'.map Char.toLower :=
    (List.cons.inj (List.cons.inj h).2).2
  have hvalues := Hex.map_value_eq_of_toLower hdigits hdigits' hletters
  have hread : ∀ {t : String} {ds : List Char}, t.toList = '0' :: 'x' :: ds → ds.length = 40 →
      (∀ c ∈ ds, c ∈ Hex.digitChars) →
        fromHex t = Hex.decodePrefix (ds.map fun c => UInt8.ofNat c.toNat) := by
    intro t ds ht hds hmem
    simp [fromHex, utf8_of_digits ht hmem, strip0x, hds]
  rw [hexToAddress, hexToAddress, hread hs hlength hdigits, hread hs' hlength' hdigits',
    Hex.decodePrefix_congr hvalues]

/-! ## Errors of the calls -/

/-- The errors that calls are answered with. -/
def Err.isOfCall : Err → Bool
  | .external _ | .transactionCanceled _ | .recordNotFound => true
  | _ => false

section

variable [Environment] {α β : Type} {q : Err → Prop}

/-- The error of a call is none that the server makes itself. -/
theorem World.isOfCall_of_exec {w w' : World} {o : Op} {ch : Choice} {e : Err}
    (h : w.exec o ch = some (.error e, w')) : e.isOfCall = true := by
  have hview : ∀ {α : Type} {v : Option α}, ofView v = .error e → e.isOfCall = true := by
    intro α v hv
    cases v with
    | some a => cases hv
    | none =>
      cases hv
      rfl
  cases ch with
  | fail message =>
    -- Any call may fail, with an error from outside.
    cases o <;> simp only [exec, Option.some.injEq, Prod.mk.injEq, Except.error.injEq,
      reduceCtorEq] at h <;> exact h.1 ▸ rfl
  | ok =>
    cases o with
    | getOwnerOfArticle | getArticleIdsOwnedBy =>
      simp only [exec, Op.isRead, if_true, Option.some.injEq, Prod.mk.injEq] at h
      exact hview h.1
    | first id preload =>
      simp only [exec, Op.isRead, if_true, Option.some.injEq, Prod.mk.injEq, view] at h
      cases hrow : w.articles.get id with
      | some row =>
        rw [hrow] at h
        cases h.1
      | none =>
        rw [hrow] at h
        cases h.1
        rfl
    | transactWriteItems items =>
      simp only [exec, transact] at h
      split_ifs at h
      · cases h
      · cases h
        rfl
    | create a =>
      -- An article cannot be created under an id that is there already.
      simp only [exec, insert] at h
      cases hrow : w.articles.get a.id with
      | some row =>
        rw [hrow] at h
        cases h
        rfl
      | none =>
        rw [hrow] at h
        cases h
    | _ => cases h
  | nonce n =>
    cases o with
    | generateNonce =>
      simp only [exec] at h
      split_ifs at h
      cases h
    | _ => cases h
  | id s =>
    cases o with
    | generateString size =>
      simp only [exec] at h
      split_ifs at h
      cases h
    | _ => cases h
  | rows l =>
    cases o with
    | find query offset limit sortBy =>
      simp only [exec] at h
      split_ifs at h
      cases h
    | _ => cases h
  | _ => cases o <;> cases h

/-- Every error that the program ends with satisfies `q`. -/
def Throws (q : Err → Prop) (p : Prog α) : Prop :=
  ∀ w r w', Program.Runs World.exec w p r w' → ∀ e, r = .error (.err e) → q e

/-- The rule of sequencing. -/
theorem Throws.bind {p : Prog α} {f : α → Prog β} (hp : Throws q p) (hf : ∀ a, Throws q (f a)) :
    Throws q (p >>= f) := by
  rintro w r w' h e rfl
  rcases Program.runs_bind.1 h with ⟨a, w₁, -, hrest⟩ | ⟨e', hfirst, he⟩
  · exact hf a _ _ _ hrest e rfl
  · cases he
    exact hp _ _ _ hfirst e rfl

/-- A program that returns throws nothing. -/
theorem throws_pure (a : α) : Throws q (pure a : Prog α) := by
  intro w r w' h e hr
  rw [(Program.runs_ret.1 h).1] at hr
  cases hr

/-- A program that throws throws its error. -/
theorem throws_throw {e : Err} (he : q e) : Throws q (.throw (.err e) : Prog α) := by
  intro w r w' h e' hr
  rw [(Program.runs_throw.1 h).1] at hr
  cases hr
  exact he

/-- A call throws what calls throw. -/
theorem throws_call (hq : ∀ e : Err, e.isOfCall = true → q e) (o : Op) : Throws q (call o) := by
  intro w r w' h e hr
  obtain ⟨ch, a, he, rfl⟩ := runs_call h
  cases a with
  | ok v => cases hr
  | error e' =>
    cases hr
    exact hq e (World.isOfCall_of_exec he)

/-- The rule of replaced errors. -/
theorem Throws.mapErr {f : Err → Err} {p : Prog α} (hp : Throws (fun e => q (f e)) p) :
    Throws q (mapErr f p) := by
  intro w r w' h e hr
  obtain ⟨r', hrun, rfl⟩ := runs_of_mapErr h
  cases r' with
  | ok a => cases hr
  | error fault =>
    cases fault with
    | panic m => cases hr
    | err e' =>
      cases hr
      exact hp _ _ _ hrun e' rfl

/-- A result is thrown if it is an error. -/
theorem Throws.ofExcept {r : Except Fault α} (hr : ∀ e, r = .error (.err e) → q e) :
    Throws q (Program.ofExcept r : Prog α) := by
  intro w r' w' h e he
  obtain ⟨rfl, -⟩ := Program.runs_ofExcept.1 h
  exact hr e he

end

/-! ## The parts of `CreateForArticle` -/

section

variable [Environment] {w w' : World} {a : Address} {address signature : String}
  {articleID : ArticleID} {chs : List Choice}

/-- The part of `CreateForArticle` before the signature is checked. -/
def lookUpNonce (a : Address) : Prog Hash := do
  let userID ← mapErr .unauthenticated (getIDByAddress a)
  mapErr .unauthenticated (getAndReplaceNonceByID userID)

/-- The part of `CreateForArticle` after the signature has been checked. -/
def mintForArticle (articleID : ArticleID) (address : String) : Prog CreateNftForArticleResult := do
  call .begin
  let target ← mapErr (recordNotFoundAs .articleNotFound) (call (.first articleID false))
  let mintTx ← submitMint address target
  storeTokenized target
  pure ⟨mintTx.hash.hex, (BitVec.ofNat 64 mintTx.cost).toInt⟩

/-- The text of the address is looked at in two places only: where the signature is verified, and
    where the address is compared with that of the author. -/
theorem createForArticle_eq : createForArticle articleID address signature =
    lookUpNonce (hexToAddress address) >>= fun nonce =>
      mapErr .unauthenticated (Program.ofExcept
        (verifySignature address signature createNFTSignData (some nonce))) >>= fun _ =>
          mintForArticle articleID address := by
  simp only [createForArticle, authenticate, lookUpNonce, Program.bind_assoc]
  rfl

/-- A request that was authenticated is not refused as one that was not. -/
theorem throws_mintForArticle : Throws (fun e => ∀ e', e ≠ .unauthenticated e')
    (mintForArticle articleID address) := by
  -- Only `authenticate` makes an error of this kind, and the mint does not call it.
  have hcall : ∀ o : Op, Throws (fun e => ∀ e', e ≠ .unauthenticated e') (call o) :=
    throws_call fun e he e' heq => by
      subst heq
      cases he
  have hstore : ∀ target : Article, Throws (fun e => ∀ e', e ≠ .unauthenticated e')
      (storeTokenized target) := fun target =>
    (hcall _).bind fun _ => (hcall _).bind fun _ => (hcall _).bind fun _ => hcall _
  have hvalue : ∀ type key, Throws (fun e => ∀ e', e ≠ .unauthenticated e') (getValue type key) := by
    refine fun type key => (hcall _).bind fun item => Throws.ofExcept fun e he e' => ?_
    rcases item with _ | _ | value
    · cases he
      nofun
    · cases he
      nofun
    · cases he
  have hmint : ∀ target : Article, Throws (fun e => ∀ e', e ≠ .unauthenticated e')
      (submitMint address target) := by
    refine fun target => Throws.bind ((hvalue _ _).bind fun _ => throws_pure _) fun author => ?_
    split_ifs
    · exact throws_throw nofun
    · exact (hcall _).bind fun _ => hcall _
  refine (hcall _).bind fun _ => Throws.bind ?_ fun target =>
    (hmint target).bind fun _ => (hstore target).bind fun _ => throws_pure _
  refine Throws.mapErr (throws_call (fun e he e' heq => ?_) _)
  rw [recordNotFoundAs] at heq
  split_ifs at heq
  subst heq
  cases he

/-- The first calls of the request are answered, and it is signed by the address with the
    nonce that its user has. -/
def SignedBy (w : World) (a : Address) (signature : String) (chs : List Choice) : Prop :=
  ∃ user value n rest, w.lookup .walletAddressToUserID a.string = some user ∧
    w.lookup .userIDToNonce user = some value ∧ chs = .ok :: .nonce n :: .ok :: rest ∧
    recoverSigner signature (generateSignData createNFTSignData (hexToHash value)) = some a

/-- A value that is looked up is in the table; and it is looked up if the call is
    answered. -/
theorem runLeaving_getValue {f : Err → Err} {type : KeyValueType} {key : String}
    {r : Except Fault String} {rest : List Choice}
    (h : Program.runLeaving World.exec w (mapErr f (getValue type key)) chs =
      some ((r, w'), rest)) :
    w' = w ∧ ((∃ value, r = .ok value ∧ w.lookup type key = some value ∧ chs = .ok :: rest) ∨
      ∃ e, r = .error e ∧ ∀ value rest, w.lookup type key = some value → chs ≠ .ok :: rest) := by
  cases chs with
  | nil => cases h
  | cons c chs =>
    obtain ⟨⟨item, w₁⟩, he, h⟩ := Option.bind_eq_some_iff.1 h
    -- The answer to the one call decides: an error, no item, or the value of the item.
    cases c with
    | fail message =>
      cases he
      cases Program.runLeaving_throw.symm.trans h
      exact ⟨rfl, .inr ⟨_, rfl, fun _ _ _ hchs => by cases hchs⟩⟩
    | ok =>
      cases he
      simp only [World.lookup, World.view] at h ⊢
      cases hitem : w.items.get (type, key) with
      | none =>
        rw [hitem] at h
        cases Program.runLeaving_throw.symm.trans h
        exact ⟨rfl, .inr ⟨_, rfl, fun _ _ hvalue => by cases hvalue⟩⟩
      | some i =>
        rw [hitem] at h
        cases Program.runLeaving_ret.symm.trans h
        exact ⟨rfl, .inl ⟨_, rfl, rfl, rfl⟩⟩
    | _ => cases he

/-- The nonce that is replaced is the one of the user; and it is replaced if the calls are
    answered. -/
theorem runLeaving_getAndReplaceNonceByID {f : Err → Err} {user : String}
    {r : Except Fault Hash} {rest : List Choice}
    (h : Program.runLeaving World.exec w (mapErr f (getAndReplaceNonceByID user)) chs =
      some ((r, w'), rest)) :
    (∃ value n, r = .ok (hexToHash value) ∧ w.lookup .userIDToNonce user = some value ∧
      chs = .nonce n :: .ok :: rest) ∨
    ∃ e, r = .error e ∧ ∀ value n rest, w.lookup .userIDToNonce user = some value →
      chs ≠ .nonce n :: .ok :: rest := by
  cases chs with
  | nil => cases h
  | cons c chs =>
    obtain ⟨⟨n, w₁⟩, he, h⟩ := Option.bind_eq_some_iff.1 h
    -- A nonce is drawn and then put in the place of the old one: two answers are read.
    cases c with
    | fail message =>
      cases he
      cases Program.runLeaving_throw.symm.trans h
      exact .inr ⟨_, rfl, fun _ _ _ _ hchs => by cases hchs⟩
    | nonce n =>
      simp only [World.exec] at he
      split_ifs at he
      cases he
      cases chs with
      | nil => cases h
      | cons c chs =>
        obtain ⟨⟨old, w₂⟩, he, h⟩ := Option.bind_eq_some_iff.1 h
        cases c with
        | fail message =>
          cases he
          cases Program.runLeaving_throw.symm.trans h
          exact .inr ⟨_, rfl, fun _ _ _ _ hchs => by cases hchs⟩
        | ok =>
          cases he
          simp only [World.lookup, Item.primaryKey] at h ⊢
          cases hitem : w.items.get (.userIDToNonce, user) with
          | none =>
            rw [hitem] at h
            cases Program.runLeaving_throw.symm.trans h
            exact .inr ⟨_, rfl, fun _ _ _ hvalue => by cases hvalue⟩
          | some i =>
            rw [hitem] at h
            cases Program.runLeaving_ret.symm.trans h
            exact .inl ⟨_, n, rfl, rfl, rfl⟩
        | _ => cases he
    | _ => cases he

/-- The nonce of the user is looked up if the calls are answered, and only then. -/
theorem runLeaving_lookUpNonce {r : Except Fault Hash} {rest : List Choice}
    (h : Program.runLeaving World.exec w (lookUpNonce a) chs = some ((r, w'), rest)) :
    (∃ user value n, r = .ok (hexToHash value) ∧
      w.lookup .walletAddressToUserID a.string = some user ∧
      w.lookup .userIDToNonce user = some value ∧ chs = .ok :: .nonce n :: .ok :: rest) ∨
    ∃ e, r = .error e ∧ ∀ signature, ¬ SignedBy w a signature chs := by
  rw [lookUpNonce, Program.runLeaving_bind] at h
  obtain ⟨⟨⟨r₁, w₁⟩, chs₁⟩, hid, hrest⟩ := Option.bind_eq_some_iff.1 h
  obtain ⟨rfl, ⟨user, rfl, huser, rfl⟩ | ⟨e, rfl, hnone⟩⟩ := runLeaving_getValue hid
  · rcases runLeaving_getAndReplaceNonceByID hrest with ⟨value, n, rfl, hvalue, rfl⟩ |
      ⟨e, rfl, hnonce⟩
    · exact .inl ⟨user, value, n, rfl, huser, hvalue, rfl⟩
    · refine .inr ⟨e, rfl, ?_⟩
      rintro signature ⟨user', value, n, rest, huser', hvalue, hchs, -⟩
      cases huser.symm.trans huser'
      exact hnonce value n rest hvalue (List.cons.inj hchs).2
  · cases hrest
    refine .inr ⟨e, rfl, ?_⟩
    rintro signature ⟨user, value, n, rest, huser, -, hchs, -⟩
    exact hnone user _ huser hchs

/-! ## Two spellings -/

/-- The part of `CreateForArticle` from the check of the signature on. -/
def checkAndMint (articleID : ArticleID) (address signature : String) (nonce : Hash) :
    Prog CreateNftForArticleResult :=
  mapErr .unauthenticated (Program.ofExcept
    (verifySignature address signature createNFTSignData (some nonce))) >>= fun _ =>
      mintForArticle articleID address

/-- The error that the address is not the one of the signer. -/
def notTheSigner : Fault := .err (.unauthenticated (.text "`address` didn't match the signer"))

section

variable {nonce : Hash} {r : Except Fault CreateNftForArticleResult} {w₀ w₁ : World}

/-- A signature that is refused ends the request, which writes nothing more. -/
theorem run_of_refused {fault : Fault}
    (hverify : verifySignature address signature createNFTSignData (some nonce) = .error fault) :
    Program.run World.exec w₀ (checkAndMint articleID address signature nonce) chs =
      some (.error (fault.mapErr .unauthenticated), w₀) := by
  rw [checkAndMint, hverify]
  exact Program.run_ofExcept (r := .error _)

/-- A text that is not the spelling of the signer is refused; and what comes after one that
    is does not end with the error of one that was refused. -/
theorem refused_or_accepted {b : Address}
    (hverify : ∀ addr, verifySignature addr signature createNFTSignData (some nonce) =
      if addr ≠ b.string then .error (.err (.text "`address` didn't match the signer"))
      else .ok ())
    (h : Program.run World.exec w₀ (checkAndMint articleID address signature nonce) chs =
      some (r, w₁)) :
    (b.string ≠ address ∧ r = .error notTheSigner ∧ w₁ = w₀) ∨
      b.string = address ∧ r ≠ .error notTheSigner := by
  by_cases hspelled : b.string = address
  · refine .inr ⟨hspelled, ?_⟩
    rw [checkAndMint, hverify, if_neg (not_not_intro hspelled.symm)] at h
    rintro rfl
    exact throws_mintForArticle w₀ _ w₁ (Program.Runs.of_run h) _ rfl _ rfl
  · rw [run_of_refused ((hverify address).trans (if_pos (Ne.symm hspelled)))] at h
    cases h
    exact .inl ⟨hspelled, rfl, rfl⟩

end

/-- The signature is by the address if its key has signed the nonce that was stored. -/
theorem signedBy_iff {user value : String} {n : Hash} {rest : List Choice}
    (huser : w.lookup .walletAddressToUserID a.string = some user)
    (hvalue : w.lookup .userIDToNonce user = some value) :
    SignedBy w a signature (.ok :: .nonce n :: .ok :: rest) ↔
      recoverSigner signature (generateSignData createNFTSignData (hexToHash value)) = some a := by
  constructor
  · rintro ⟨user', value', n', rest', huser', hvalue', -, hsigner⟩
    cases huser.symm.trans huser'
    cases hvalue.symm.trans hvalue'
    exact hsigner
  · exact fun hsigner => ⟨user, value, n, rest, huser, hvalue, rfl, hsigner⟩

/-- From the check of the signature on, two spellings of an address make a difference
    exactly if the signer has the address, and one of them is its spelling. -/
theorem sameOutcome_of_check {address' : String} {nonce : Hash} {w₀ w₁ w₂ : World}
    (ha : hexToAddress address = a) (ha' : hexToAddress address' = a)
    {r r' : Except Fault CreateNftForArticleResult}
    (h : Program.run World.exec w₀ (checkAndMint articleID address signature nonce) chs =
      some (r, w₁))
    (h' : Program.run World.exec w₀ (checkAndMint articleID address' signature nonce) chs =
      some (r', w₂)) :
    (r = r' ∧ w₁ = w₂) ↔ (Checksummed address ↔ Checksummed address') ∨
      recoverSigner signature (generateSignData createNFTSignData nonce) ≠ some a := by
  rcases verifySignature_cases signature createNFTSignData (some nonce) with
    ⟨hnone, fault, hfault⟩ | ⟨b, hb, hverify⟩
  · -- The signature is refused for another reason than its signer.
    rw [run_of_refused (hfault address)] at h
    rw [run_of_refused (hfault address')] at h'
    cases h
    cases h'
    refine iff_of_true ⟨rfl, rfl⟩ (.inr ?_)
    rw [show recoverSigner signature (generateSignData createNFTSignData nonce) = none from hnone]
    nofun
  rw [show recoverSigner signature (generateSignData createNFTSignData nonce) = some b from hb,
    Checksummed, Checksummed, ha, ha', ne_eq, Option.some.injEq]
  by_cases hsigner : b = a
  · subst hsigner
    rw [or_iff_left (not_not_intro rfl)]
    -- The texts are the spelling of the signer, or they are refused.
    rcases refused_or_accepted hverify h with ⟨hspelled, rfl, rfl⟩ | ⟨hspelled, hne⟩
    · rcases refused_or_accepted hverify h' with ⟨hspelled', rfl, rfl⟩ | ⟨hspelled', hne'⟩
      · exact iff_of_true ⟨rfl, rfl⟩ (iff_of_false hspelled hspelled')
      · exact iff_of_false (fun hsame => hne' hsame.1.symm) fun hiff => hspelled (hiff.2 hspelled')
    · rcases refused_or_accepted hverify h' with ⟨hspelled', rfl, rfl⟩ | ⟨hspelled', -⟩
      · exact iff_of_false (fun hsame => hne hsame.1) fun hiff => hspelled' (hiff.1 hspelled)
      · subst hspelled
        subst hspelled'
        cases h.symm.trans h'
        exact iff_of_true ⟨rfl, rfl⟩ Iff.rfl
  · -- Neither text is the spelling of another address than the one that it denotes.
    have hne : ∀ t, hexToAddress t = a → b.string ≠ t := by
      rintro t ht rfl
      exact hsigner (by rw [← ht, hexToAddress_string])
    obtain ⟨-, rfl, rfl⟩ :=
      (refused_or_accepted hverify h).resolve_right fun hspelled => hne _ ha hspelled.1
    obtain ⟨-, rfl, rfl⟩ :=
      (refused_or_accepted hverify h').resolve_right fun hspelled => hne _ ha' hspelled.1
    exact iff_of_true ⟨rfl, rfl⟩ (.inr hsigner)

/-- Requests that differ in the spelling of the address have the same outcome, if they are
    answered the same, exactly if both texts are the spelling of the address or none is, or
    the request is not signed. -/
theorem sameOutcome_iff {address' : String} (haddress : MatchesAddress address)
    (haddress' : MatchesAddress address') (hletters : SameLetters address address')
    {r r' : Except Fault CreateNftForArticleResult} {w₁ w₂ : World}
    (h : Program.run World.exec w (createForArticle articleID address signature) chs =
      some (r, w₁))
    (h' : Program.run World.exec w (createForArticle articleID address' signature) chs =
      some (r', w₂)) :
    (r = r' ∧ w₁ = w₂) ↔ (Checksummed address ↔ Checksummed address') ∨
      ¬ SignedBy w (hexToAddress address) signature chs := by
  have ha := hexToAddress_eq haddress haddress' hletters
  rw [createForArticle_eq, Program.run_bind] at h h'
  rw [← ha] at h'
  obtain ⟨⟨⟨r₀, w₀⟩, rest⟩, hnonce, hrest⟩ := Option.bind_eq_some_iff.1 h
  rw [hnonce] at h'
  rcases runLeaving_lookUpNonce hnonce with ⟨user, value, n, rfl, huser, hvalue, rfl⟩ |
    ⟨e, rfl, hsigned⟩
  · rw [signedBy_iff huser hvalue]
    exact sameOutcome_of_check rfl ha.symm hrest h'
  · cases hrest
    cases h'
    exact iff_of_true ⟨rfl, rfl⟩ (.inr (hsigned signature))

end

/-! The author of an article, in the spelling of the address and in lower case. -/

section

attribute [local instance] Hardhat.environment

open Hardhat

/-- The author has registered and has an article. -/
def registered : World :=
  { World.initial with
    articles := Keyed.Table.empty.put ⟨articleID, "author", false⟩
    items := (userWalletItems "author" author.string nonce).foldl Keyed.Table.put .empty }

/-- The address of the author in lower case. -/
def lowerCase : String := spell (fun _ => false) author.toList

/-- The address of the author in upper case. -/
def upperCase : String := spell (fun _ => true) author.toList

/-- The choices that let a request to tokenize an article succeed. -/
def tokenizes : List Choice :=
  [.ok, .nonce (.ofList 32 [2]), .ok, .ok, .ok, .ok, .gasPrice 1, .tx ⟨.ofList 32 [3], 1⟩,
    .json "{}", .ok, .ok, .recreate false]

/-- Two spellings without a checksum are refused alike. -/
theorem sameOutcome_unchecked : ∃ r w₁, Program.run World.exec registered
    (createForArticle articleID lowerCase signature) tokenizes = some (r, w₁) ∧
      Program.run World.exec registered (createForArticle articleID upperCase signature) tokenizes =
        some (r, w₁) := by
  obtain ⟨⟨r, w₁⟩, h⟩ : ∃ rw, Program.run World.exec registered
      (createForArticle articleID lowerCase signature) tokenizes = some rw :=
    Option.isSome_iff_exists.1 (by decide +kernel)
  obtain ⟨⟨r', w₂⟩, h'⟩ : ∃ rw, Program.run World.exec registered
      (createForArticle articleID upperCase signature) tokenizes = some rw :=
    Option.isSome_iff_exists.1 (by decide +kernel)
  obtain ⟨rfl, rfl⟩ := (sameOutcome_iff (by decide +kernel) (by decide +kernel) (by decide +kernel)
    h h').2 (.inl (by decide +kernel))
  exact ⟨r, w₁, h, h'⟩

/-- The checksummed spelling tokenizes the article; in lower case, the same address does not. -/
theorem not_sameOutcome_lowerCase : MatchesAddress author.string ∧ MatchesAddress lowerCase ∧
    SameLetters author.string lowerCase ∧
    (∃ result w₁, Program.run World.exec registered
      (createForArticle articleID author.string signature) tokenizes = some (.ok result, w₁)) ∧
    ∃ e w₂, Program.run World.exec registered
      (createForArticle articleID lowerCase signature) tokenizes = some (.error e, w₂) := by
  refine ⟨by decide +kernel, by decide +kernel, by decide +kernel, ?_, ?_⟩
  · have hok : (Program.run World.exec registered
        (createForArticle articleID author.string signature) tokenizes).map (·.1.isOk) =
          some true := by decide +kernel
    obtain ⟨⟨r, w₁⟩, hrun, hr⟩ := Option.map_eq_some_iff.1 hok
    cases r with
    | ok result => exact ⟨result, w₁, hrun⟩
    | error e => cases hr
  · have herror : (Program.run World.exec registered
        (createForArticle articleID lowerCase signature) tokenizes).map (·.1.isOk) =
          some false := by decide +kernel
    obtain ⟨⟨r, w₁⟩, hrun, hr⟩ := Option.map_eq_some_iff.1 herror
    cases r with
    | ok result => cases hr
    | error e => exact ⟨e, w₁, hrun⟩

end

end Knowtfolio
