import Knowtfolio.Contract.Invariant
import Knowtfolio.Data.Text

/-!
# What the contract lists

`getArticleIdsOwnedBy` collects the URIs of the tokens of an account, one by
one. Where the invariant of the contract holds, these are the base URI followed
by an article, and the list is, without repetition, that of the articles whose
owner the account is (`mem_getArticleIdsOwnedBy`). Hence so it is in every state
that messages lead to (`views_applyAll`).
-/

namespace Knowtfolio.Contract

/-- A loop over the indices of a list, looking its elements up, is one over the
    elements. -/
theorem mapM_range_getElem? {α β : Type} (l : List α) (f : α → Option β) :
    ((List.range l.length).mapM fun i => do f (← l[i]?)) = l.mapM f := by
  have hl : (List.range l.length).map (l[·]?) = l.map some := by
    apply List.ext_getElem (by simp)
    intro i h₁ h₂
    have hi : i < l.length := by simpa using h₁
    simp [hi]
  calc ((List.range l.length).mapM fun i => do f (← l[i]?))
      = ((List.range l.length).map (l[·]?)).mapM (· >>= f) := by
        rw [List.mapM_map]; rfl
    _ = l.mapM f := by rw [hl, List.mapM_map]; rfl

/-- Where no call fails, the list is mapped. -/
theorem mapM_eq_some_map {α β : Type} {l : List α} {f : α → Option β} {g : α → β}
    (h : ∀ a ∈ l, f a = some (g a)) : l.mapM f = some (l.map g) := by
  induction l with
  | nil => rfl
  | cons a l ih =>
    rw [List.mapM_cons, h a List.mem_cons_self, ih fun b hb => h b (List.mem_cons_of_mem _ hb)]
    rfl

section

variable [Chain] {s : State} {u : Address}

/-- The articles of the tokens of an account, in the order of the tokens. -/
def articlesOf (s : State) (u : Address) : List String := (s.ledger.tokensOf u).map s.tokenURIs

/-- What is listed for an account is, behind the base URI, its articles. -/
theorem getArticleIdsOwnedBy_eq (hinv : Inv s) (hu : u ≠ 0) :
    s.getArticleIdsOwnedBy u = some ((articlesOf s u).map (baseURI ++ ·)) := by
  rw [State.getArticleIdsOwnedBy, State.balanceOf, if_neg hu, articlesOf, List.map_map]
  refine (mapM_range_getElem? (s.ledger.tokensOf u) s.tokenURI).trans
    (mapM_eq_some_map fun t ht => ?_)
  rw [s.ledger.mem_tokensOf] at ht
  have hne := (hinv.token t (by simp [ht])).2.2.1
  simp [State.tokenURI, ht, hne]

omit [Chain] in
/-- The server gets the ids back from the URIs. -/
theorem map_trimPrefix_baseURI (l : List String) :
    (l.map (baseURI ++ ·)).map (Text.trimPrefix · baseURI) = l := by
  rw [List.map_map]
  exact (List.map_congr_left fun a _ => Text.trimPrefix_append baseURI a).trans (List.map_id l)

/-- Different tokens are of different articles. -/
theorem nodup_articlesOf (hinv : Inv s) : (articlesOf s u).Nodup := by
  refine List.Nodup.map_on (fun t ht t' ht' h => ?_) (s.ledger.nodup u)
  rw [s.ledger.mem_tokensOf] at ht ht'
  have htok := (hinv.token t (by simp [ht])).2.2.2
  have htok' := (hinv.token t' (by simp [ht'])).2.2.2
  rw [← htok, h, htok']

/-- The articles of an account are those whose owner it is. -/
theorem mem_articlesOf (hinv : Inv s) (hu : u ≠ 0) {a : String} :
    a ∈ articlesOf s u ↔ s.getOwnerOfArticle a = some u := by
  simp only [articlesOf, List.mem_map, s.ledger.mem_tokensOf, State.getOwnerOfArticle,
    State.ownerOf]
  constructor
  · rintro ⟨t, ht, rfl⟩
    obtain ⟨hpos, _, _, htok⟩ := hinv.token t (by simp [ht])
    rw [htok, if_neg (by omega), ht]
  · intro h
    split_ifs at h with hz
    · exact absurd (Option.some.inj h).symm hu
    · exact ⟨_, h, (hinv.article a hz).2⟩

/-- The articles listed for an account, each once, are those whose owner it is. -/
theorem mem_getArticleIdsOwnedBy (hinv : Inv s) (hu : u ≠ 0) :
    ∃ uris, s.getArticleIdsOwnedBy u = some uris ∧ uris.Nodup ∧
      ∀ a, a ∈ uris.map (Text.trimPrefix · baseURI) ↔ s.getOwnerOfArticle a = some u := by
  refine ⟨_, getArticleIdsOwnedBy_eq hinv hu, ?_, fun a => ?_⟩
  · refine (nodup_articlesOf hinv).map fun a b hab => ?_
    have := congrArg (Text.trimPrefix · baseURI) hab
    simpa using this
  · rw [map_trimPrefix_baseURI]
    exact mem_articlesOf hinv hu

/-- In every state that messages lead to from deployment, the tokens, their URIs
    and the tokens of the articles agree, and so do the two views on them. -/
theorem views_applyAll (ms : List Message) (hms : ∀ m ∈ ms, m.OwnerExternal)
    (hlt : mints ms State.deployed < 2 ^ 256) :
    let s := applyAll ms State.deployed
    (∀ a, s.tokenIdOf a ≠ 0 → s.ownerOf (s.tokenIdOf a) ≠ none ∧ 1 ≤ s.tokenIdOf a ∧
      s.tokenIdOf a ≤ s.tokenIds ∧ s.tokenURIs (s.tokenIdOf a) = a) ∧
    (∀ t, s.ownerOf t ≠ none → s.tokenURIs t ≠ "" ∧ s.tokenIdOf (s.tokenURIs t) = t) ∧
    ∀ u, u ≠ 0 → ∃ uris, s.getArticleIdsOwnedBy u = some uris ∧ uris.Nodup ∧
      ∀ a, a ∈ uris.map (Text.trimPrefix · baseURI) ↔ s.getOwnerOfArticle a = some u := by
  intro s
  have hinv : Inv s := inv_applyAll hms inv_deployed (by simpa [State.deployed] using hlt)
  refine ⟨fun a ha => ?_, fun t ht => ?_, fun u hu => mem_getArticleIdsOwnedBy hinv hu⟩
  · obtain ⟨hex, huri⟩ := hinv.article a ha
    obtain ⟨hpos, hle, _, _⟩ := hinv.token _ hex
    exact ⟨hex, hpos, hle, huri⟩
  · obtain ⟨_, _, hne, htok⟩ := hinv.token t ht
    exact ⟨hne, htok⟩

end

/-! A run in which the recipient of a mint, the contract 2, moves the token on to
account 3 while it is called back. -/

section

local instance reentrantChain : Chain := .ofContracts [.ofByte 2] (by decide)

/-- The first account of the example is not the zero one. -/
theorem ofByte_one_ne_zero : Address.ofByte 1 ≠ 0 := by decide

/-- The second account of the example is a contract. -/
theorem isContract_two : Chain.isContract (.ofByte 2) = true := by decide

/-- Account 1 becomes the owner and mints an article for the contract 2. -/
def reentrantMint : List Message :=
  [⟨.ofByte 1, ofByte_one_ne_zero, .initializeContract, [], true⟩,
    ⟨.ofByte 1, ofByte_one_ne_zero, .mintNFT (.ofByte 2) "abcdefghijk",
      [.call ⟨.ofByte 2, isContract_two⟩ (.transferFrom (.ofByte 2) (.ofByte 3) 1) [] true], true⟩]

/-- The recipient sends the token on while it is called back: both views name the new owner. -/
theorem views_reentrantMint :
    (applyAll reentrantMint State.deployed).getOwnerOfArticle "abcdefghijk" = some (.ofByte 3) ∧
      ∃ uris, (applyAll reentrantMint State.deployed).getArticleIdsOwnedBy (.ofByte 3) = some uris ∧
        uris.Nodup ∧ ∀ a, a ∈ uris.map (Text.trimPrefix · baseURI) ↔
          (applyAll reentrantMint State.deployed).getOwnerOfArticle a = some (.ofByte 3) :=
  ⟨by decide, (views_applyAll reentrantMint (by decide) (by decide)).2.2 _ (by decide)⟩

end

end Knowtfolio.Contract
