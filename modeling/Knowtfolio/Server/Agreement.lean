import Knowtfolio.Server.Mints
import Knowtfolio.Server.Tokenized

/-!
# The database and the chain

`CreateForArticle` submits a mint before it commits its article as tokenized. The
database gives up what was not committed, the chain does not: the two agree only
as long as a mint and its request have the same fate (`sharesFate`). Then, and
as long as no update undoes a tokenization and the contract can count, what is
stored as tokenized is what has a token, whenever the server is at rest and no
mint is pending (`isTokenized_iff_tokenIdOf`).

The invariant of the runs (`Agreement`) speaks of all moments. What was committed as tokenized has
a token or a mint that is pending; and what has a token was committed as tokenized, or there is a
request that has submitted the mint and has yet to commit (`Pledged`). At rest no mint is pending
and no request has anything left to do, and what remains of the invariant is the agreement.
-/

namespace Knowtfolio

open Interaction Machine

section

variable [Environment] {ok : server.Config → server.Move → Prop} {c c' : server.Config}
  {id : String}

/-- Whether an event is the commit of the article `id` as tokenized. -/
def isTokenCommit (id : String) : server.Event → Bool
  | .asked _ e => commitsTokenized id e
  | _ => false

/-- An article was committed as tokenized if there is such an event. -/
theorem committedTokenized_iff :
    CommittedTokenized c id ↔ ∃ x ∈ c.history, isTokenCommit id x = true := by
  constructor
  · rintro ⟨i, a, ha, hflag, hid⟩
    exact ⟨_, ha, commitsTokenized_iff.2 ⟨a, rfl, hflag, hid⟩⟩
  · rintro ⟨x, hx, hcommit⟩
    cases x with
    | asked i e =>
      obtain ⟨a, rfl, hflag, hid⟩ := commitsTokenized_iff.1 hcommit
      exact ⟨i, a, hx, hflag, hid⟩
    | _ => cases hcommit

instance (c : server.Config) (id : String) : Decidable (CommittedTokenized c id) :=
  decidable_of_iff _ committedTokenized_iff.symm

/-- Another event commits it, or it was committed before. -/
theorem committedTokenized_append {x : server.Event} (hx : c'.history = c.history ++ [x]) :
    CommittedTokenized c' id ↔ CommittedTokenized c id ∨ isTokenCommit id x = true := by
  simp only [committedTokenized_iff, hx, List.mem_append, List.mem_singleton, or_and_right,
    exists_or, exists_eq_left]

/-! ## The fate of a mint -/

/-- Whether a call submitted a mint of the article `id`. -/
def submitsMint (id : String) : calls.Entry → Bool
  | ⟨.mintNFT _ _ a, .ok _⟩ => a = id
  | _ => false

/-- Whether a call settles what the database makes of a mint: its article is
    committed, or the request fails. -/
def settlesMint : calls.Entry → Bool
  | ⟨.commit _, .ok _⟩ => true
  | ⟨o, .error _⟩ => o.isAfterMint
  | _ => false

/-- Whether the request has submitted a mint of the article `id`, and has neither
    committed it nor failed since. -/
def isMinting (id : String) (t : server.Thread) : Bool :=
  t.log.any (submitsMint id) && !t.log.any settlesMint

/-- The article was committed as tokenized, or a request may still do so. -/
def Pledged (c : server.Config) (id : String) : Prop :=
  CommittedTokenized c id ∨ ∃ t ∈ c.threads, isMinting id t = true

instance (c : server.Config) (id : String) : Decidable (Pledged c id) :=
  inferInstanceAs (Decidable (_ ∨ _))

/-- Whether nothing is lost with the mint `p` at the place `k`: its article was not
    committed as tokenized, or has a token or another mint. -/
def isDispensable (c : server.Config) (k : ℕ) (p : Mint) : Bool :=
  !decide (CommittedTokenized c p.articleId) ||
    decide (World.HasMint { c.world with mempool := c.world.mempool.eraseIdx k } p.articleId)

/-- A mint and its request have the same fate. An article is only committed as
    tokenized if it has a token or a mint; a request only fails after its mint if
    the article has no token, or does not depend on this request; a mint is only
    mined if its article was committed as tokenized, or may still be; and it is
    only dropped or reverted if it is dispensable. -/
def sharesFate (c : server.Config) : server.Move → Bool
  | .step i (.recreate _) =>
    match c.asking i with
    | some (_, _, .commit a) => !a.isTokenized || decide (c.world.HasMint a.id)
    | _ => true
  | .step i (.fail _) =>
    match c.asking i with
    | some (.createForArticle id _ _, _, o) =>
      !o.isAfterMint || decide (c.world.contract.tokenIdOf id = 0 ∨ CommittedTokenized c id ∨
        ∃ t ∈ c.threads.eraseIdx i, isMinting id t = true)
    | _ => true
  | .act (.mine k inner accepts) =>
    (c.world.mempool[k]?).all fun p =>
      if ((p.message inner accepts).exec c.world.contract).isSome then
        decide (Pledged c p.articleId)
      else isDispensable c k p
  | .act (.drop k) => (c.world.mempool[k]?).all (isDispensable c k)
  | _ => true

/-- The moves that keep the database and the chain in agreement. -/
def keepsAgreement (c : server.Config) (m : server.Move) : Bool :=
  keepsTokenized c m && boundedMints c m && sharesFate c m

/-- What was committed as tokenized has a token, or a mint; what has a token was
    committed as tokenized, or may still be. -/
structure Agreement (c : server.Config) : Prop where
  hasMint : ∀ id, CommittedTokenized c id → c.world.HasMint id
  pledged : ∀ id, c.world.contract.tokenIdOf id ≠ 0 → Pledged c id
  rows : ∀ r ∈ c.world.articles.rows, r.isTokenized = true → CommittedTokenized c r.id

omit [Environment] in
/-- The calls that submit the mint of the article. -/
theorem submitsMint_iff {e : calls.Entry} : submitsMint id e = true ↔
    ∃ gasPrice recipient t, e = answered (.mintNFT gasPrice recipient id) t := by
  unfold submitsMint
  split
  next gasPrice recipient a t =>
    constructor
    · intro h
      obtain rfl := of_decide_eq_true h
      exact ⟨gasPrice, recipient, t, rfl⟩
    · rintro ⟨_, _, _, he⟩
      cases he
      exact decide_eq_true rfl
  next h => exact ⟨nofun, fun ⟨_, _, _, he⟩ => absurd he (h _ _ _ _)⟩

/-- A request that has submitted a mint is one to tokenize the article, which it
    may commit. -/
theorem minting_request (h : Run ok c) {i : ℕ} {t : server.Thread}
    (ht : c.threads[i]? = some t) {gasPrice : ℕ} {recipient : Address} {tx : MintTx}
    (he : answered (.mintNFT gasPrice recipient id) tx ∈ t.log) :
    ∃ articleID address signature, t.request = .createForArticle articleID address signature ∧
      articleID.1 = id := by
  obtain ⟨u, l₁, l₂, hu, hl, -, articleID, address, signature, target, v, userID, n, old, hreq, -,
    hid, hf, -⟩ := asks_of_asked h ((h.mem_log ht).1 he)
  cases ht.symm.trans hu
  have hf : .asked i (answered (.first articleID false) target) ∈ c.history :=
    (h.mem_log ht).1 (by rw [hl]; exact List.mem_append_left _ hf)
  exact ⟨articleID, address, signature, hreq, by
    rw [hid, ((consistent h).loaded i _ _ _ hf).id_eq]⟩

/-- What a request commits whose mint is of the article `id`. -/
theorem commit_of_minting (h : Run ok c) {i : ℕ} {t : server.Thread}
    (ht : c.threads[i]? = some t) {a : Article} {k : calls.Ans (.commit a) → Prog Reply}
    (hk : t.rest = .ask (.commit a) k) (hmint : isMinting id t = true) :
    a.isTokenized = true ∧ a.id = id := by
  simp only [isMinting, Bool.and_eq_true, List.any_eq_true] at hmint
  obtain ⟨⟨e, he, hsub⟩, -⟩ := hmint
  obtain ⟨gasPrice, recipient, tx, rfl⟩ := submitsMint_iff.1 hsub
  obtain ⟨articleID, address, signature, hreq, -⟩ := minting_request h ht he
  rcases (asks_of_rest h ht hk).2 with
    ⟨_, _, _, _, _, hreq', -⟩ | ⟨_, _, _, target, _, _, -, -, rfl, he'⟩
  · cases hreq.symm.trans hreq'
  · cases asked_once h ((h.mem_log ht).1 he) ((h.mem_log ht).1 he') rfl
    exact ⟨rfl, rfl⟩

/-- A request goes on minting unless its call settles what becomes of the mint. -/
theorem isMinting_append {t : server.Thread} {e : calls.Entry} {q : Prog Reply}
    (h : isMinting id t = true) (he : settlesMint e = false) :
    isMinting id ⟨t.request, t.log ++ [e], q⟩ = true := by
  simp only [isMinting, Bool.and_eq_true, Bool.not_eq_true', List.any_append, List.any_cons,
    List.any_nil, he, Bool.or_false] at h ⊢
  simp [h]

/-- The requests that were minting still are, but the one that has just asked
    something. -/
theorem Pledged.step (h : Pledged c id) {i : ℕ} {t : server.Thread} {e : calls.Entry}
    {q : Prog Reply} {w : World} (ht : c.threads[i]? = some t)
    (he : isMinting id t = true → settlesMint e = false ∨ Pledged (c.step i t e q w) id) :
    Pledged (c.step i t e q w) id := by
  rcases h with h | ⟨u, hu, hmint⟩
  · exact .inl ((committedTokenized_append rfl).2 (.inl h))
  obtain ⟨j, hj⟩ := List.getElem?_of_mem hu
  by_cases hji : j = i
  · subst hji
    cases ht.symm.trans hj
    rcases he hmint with he | he
    · exact .inr ⟨_, List.mem_of_getElem? (Config.getElem?_step_self ht), isMinting_append hmint he⟩
    · exact he
  · exact .inr ⟨u, List.mem_of_getElem? (by rwa [Config.getElem?_step_of_ne hji]), hmint⟩

omit [Environment] in
/-- A call after the mint fails because it was chosen to. -/
theorem World.choice_of_failed [MySQL] {w w' : World} {o : Op} {ch : Choice} {e : Err}
    (ho : o.isAfterMint = true) (h : w.exec o ch = some (.error e, w')) :
    ∃ message, ch = .fail message := by
  cases ch with
  | fail message => exact ⟨message, rfl⟩
  | _ => cases o <;> first | exact absurd ho Bool.false_ne_true | cases h

omit [Environment] in
/-- A commit that fails tokenizes nothing. -/
theorem commitsTokenized_error {o : Op} {e : Err} : commitsTokenized id ⟨o, .error e⟩ = false := by
  cases o <;> rfl

section

variable (hrun : Run ok c) (hc : Agreement c) {i : ℕ} {t : server.Thread}
  (ht : c.threads[i]? = some t) {o : Op}

include hrun hc ht

/-- A call that fails. -/
theorem Agreement.failed {ch : Choice} {k : calls.Ans o → Prog Reply} (hk : t.rest = .ask o k)
    (hok : sharesFate c (.step i ch) = true) {e : Err}
    (he : c.world.exec o ch = some (.error e, c.world)) {q : Prog Reply} :
    Agreement (c.step i t ⟨o, .error e⟩ q c.world) := by
  have hcommitted : ∀ id', CommittedTokenized (c.step i t ⟨o, .error e⟩ q c.world) id' ↔
      CommittedTokenized c id' := fun id' => by
    rw [committedTokenized_append (x := .asked i ⟨o, .error e⟩) rfl, isTokenCommit,
      commitsTokenized_error]
    simp
  refine ⟨fun id' h => hc.hasMint id' ((hcommitted id').1 h), fun id' h => ?_, fun r hr h =>
    (hcommitted r.id).2 (hc.rows r hr h)⟩
  refine (hc.pledged id' h).step ht fun hmint => ?_
  cases hafter : o.isAfterMint with
  | false => exact .inl (by cases o <;> exact hafter)
  | true =>
    -- The article does not depend on the request, as the article has a token.
    obtain ⟨message, rfl⟩ := World.choice_of_failed hafter he
    have hmint' := hmint
    simp only [isMinting, Bool.and_eq_true, List.any_eq_true] at hmint'
    obtain ⟨⟨e', he', hsub⟩, -⟩ := hmint'
    obtain ⟨gasPrice, recipient, tx, rfl⟩ := submitsMint_iff.1 hsub
    obtain ⟨articleID, address, signature, hreq, rfl⟩ := minting_request hrun ht he'
    simp only [sharesFate, Config.asking_of_rest ht hk, hreq, hafter, Bool.not_true,
      Bool.false_or, decide_eq_true_eq] at hok
    rcases hok with hzero | hcom | ⟨u, hu, hmintu⟩
    · exact absurd hzero h
    · exact .inr (.inl ((hcommitted _).2 hcom))
    · obtain ⟨j, hji, hj⟩ := List.mem_eraseIdx_iff_getElem?.1 hu
      exact .inr (.inr ⟨u, List.mem_of_getElem? (by rwa [Config.getElem?_step_of_ne hji]), hmintu⟩)

/-- A call that is answered by a value. -/
theorem Agreement.answered {ch : Choice} {k : calls.Ans o → Prog Reply} (hk : t.rest = .ask o k)
    (hok : sharesFate c (.step i ch) = true) {v : o.Val} {w' : World}
    (he : c.world.exec o ch = some (.ok v, w')) (heff : World.Effect c.world o v w')
    {q : Prog Reply} : Agreement (c.step i t (answered o v) q w') := by
  have hcommitted : ∀ id', CommittedTokenized (c.step i t (Knowtfolio.answered o v) q w') id' ↔
      CommittedTokenized c id' ∨ commitsTokenized id' (Knowtfolio.answered o v) = true := fun id' =>
    committedTokenized_append (x := .asked i (Knowtfolio.answered o v)) rfl
  -- A commit needs a mint that is in the pool or mined; a mint needs a request that commits it.
  refine ⟨fun id' h => ?_, fun id' h => ?_, fun r hr h => ?_⟩
  · rcases (hcommitted id').1 h with h | h
    · exact (hc.hasMint id' h).exec heff
    · obtain ⟨a, hcommit, hflag, rfl⟩ := commitsTokenized_iff.1 h
      cases hcommit
      obtain ⟨b, rfl⟩ := World.choice_of_commit he
      simp only [sharesFate, Config.asking_of_rest ht hk, hflag, Bool.not_true, Bool.false_or,
        decide_eq_true_eq] at hok
      exact hok.exec heff
  · have h : c.world.contract.tokenIdOf id' ≠ 0 := by rwa [← heff.changes.contract]
    refine (hc.pledged id' h).step ht fun hmint => ?_
    -- The request that was to commit the mint has done so, or is still to do so.
    by_cases ho : ∃ a, o = .commit a
    · obtain ⟨a, rfl⟩ := ho
      obtain ⟨hflag, hid⟩ := commit_of_minting hrun ht hk hmint
      exact .inr (.inl ((hcommitted id').2 (.inr (commitsTokenized_iff.2 ⟨a, rfl, hflag, hid⟩))))
    · refine .inl ?_
      cases o with
      | commit a => exact absurd ⟨a, rfl⟩ ho
      | _ => rfl
  · rcases World.mem_articles heff hr with ⟨hr, -⟩ | ⟨a, rfl, rfl⟩ | ⟨a, rfl, rfl⟩
    · exact (hcommitted _).2 (.inl (hc.rows r hr h))
    · -- An article is not created as tokenized.
      obtain ⟨-, _, _, _, _, _, -, rfl, -⟩ := asks_of_rest hrun ht hk
      cases h
    · exact (hcommitted _).2 (.inr (commitsTokenized_iff.2 ⟨a, rfl, h, rfl⟩))

end

/-- A mint that goes without a token. -/
theorem hasMint_of_isDispensable {k : ℕ} {p : Mint} (hc : Agreement c)
    (hp : c.world.mempool[k]? = some p) (hok : isDispensable c k p = true)
    (hid : CommittedTokenized c id) :
    World.HasMint { c.world with mempool := c.world.mempool.eraseIdx k } id := by
  by_cases heq : id = p.articleId
  · subst heq
    simpa [isDispensable, hid] using hok
  · exact (hc.hasMint id hid).eraseIdx hp heq

/-- An action of the chain. -/
theorem Agreement.act (hcontract : OwnedContract c.world.contract) (hc : Agreement c) {x : Action}
    {w' : World} (hbound : boundedMints c (.act x) = true) (hok : sharesFate c (.act x) = true)
    (hx : c.world.act x = some w') : Agreement (c.act x w') := by
  have hcommitted : ∀ id', CommittedTokenized (c.act x w') id' ↔ CommittedTokenized c id' :=
    fun id' => by
      rw [committedTokenized_append (x := .acted x) rfl]
      simp [isTokenCommit]
  have hpledged : ∀ id', Pledged (c.act x w') id' ↔ Pledged c id' := fun id' =>
    or_congr (hcommitted id') Iff.rfl
  -- A mint that is mined or dropped shares the fate of what was committed of it.
  rcases World.act_cases hx with ⟨k, inner, accepts, p, rfl, hp, rfl⟩ | ⟨k, p, rfl, hp, rfl⟩ |
    ⟨m, rfl, hm, rfl⟩
  · simp only [sharesFate, hp, Option.all_some] at hok
    rcases mine_cases hcontract.settled p inner accepts with ⟨hnone, heq⟩ | ⟨hsome, hminted⟩
    · -- It was reverted, which is as if it had been dropped.
      simp only [hnone, Option.isSome_none, Bool.false_eq_true, if_false] at hok
      refine ⟨fun id' h => ?_, fun id' h => ?_, fun r hr h => (hcommitted _).2 (hc.rows r hr h)⟩
      · have := hasMint_of_isDispensable hc hp hok ((hcommitted id').1 h)
        simpa only [Config.act, heq] using this
      · simp only [Config.act, heq] at h
        exact (hpledged id').2 (hc.pledged id' h)
    · simp only [hsome, if_true, decide_eq_true_eq] at hok
      have hlt : c.world.contract.tokenIds + 1 < 2 ^ 256 := by simpa [boundedMints] using hbound
      refine ⟨fun id' h => ?_, fun id' h => ?_, fun r hr h => (hcommitted _).2 (hc.rows r hr h)⟩
      · by_cases hid : id' = p.articleId
        · exact .inl ((hminted.tokenIdOf_ne_zero hlt).2 (.inl hid))
        · rcases (hc.hasMint id' ((hcommitted id').1 h)).eraseIdx hp hid with h | h
          · exact .inl ((hminted.tokenIdOf_ne_zero hlt).2 (.inr h))
          · exact .inr h
      · rcases (hminted.tokenIdOf_ne_zero hlt).1 h with rfl | h
        · exact (hpledged _).2 hok
        · exact (hpledged id').2 (hc.pledged id' h)
  · simp only [sharesFate, hp, Option.all_some] at hok
    exact ⟨fun id' h => hasMint_of_isDispensable hc hp hok ((hcommitted id').1 h),
      fun id' h => (hpledged id').2 (hc.pledged id' h),
      fun r hr h => (hcommitted _).2 (hc.rows r hr h)⟩
  · -- A message of another account does not mint.
    have htoken := hcontract.tokenIdOf_apply hm
    refine ⟨fun id' h => ?_, fun id' h => ?_, fun r hr h => (hcommitted _).2 (hc.rows r hr h)⟩
    · exact (hc.hasMint id' ((hcommitted id').1 h)).imp_left fun h => by rwa [Config.act, htoken]
    · simp only [Config.act, htoken] at h
      exact (hpledged id').2 (hc.pledged id' h)

/-- The invariant holds in every run that keeps the agreement. -/
theorem agreement (h : Run (keepsAgreement · ·) c) : Agreement c := by
  have hbound : ∀ (c : server.Config) m, keepsAgreement c m = true → boundedMints c m = true := by
    simp +contextual [keepsAgreement]
  have hfate : ∀ (c : server.Config) m, keepsAgreement c m = true → sharesFate c m = true := by
    simp +contextual [keepsAgreement]
  -- The cases of a step are in the lemmas above; a request that arrives has done nothing yet.
  refine h.induction Agreement ⟨?_, ?_, ?_⟩ ?_ ?_ ?_
  · rintro id' ⟨i, a, ha, -⟩
    cases ha
  · exact fun id' h => absurd rfl h
  · exact fun r hr => absurd hr Keyed.Table.not_mem_empty
  · intro c r _ hc _
    have hcommitted : ∀ id', CommittedTokenized (c.arrive r) id' ↔ CommittedTokenized c id' :=
      fun id' => by
        rw [committedTokenized_append (x := .arrived c.threads.length r) rfl]
        simp [isTokenCommit]
    refine ⟨fun id' h => hc.hasMint id' ((hcommitted id').1 h), fun id' h => ?_, fun r hr h =>
      (hcommitted _).2 (hc.rows r hr h)⟩
    refine (hc.pledged id' h).imp (hcommitted id').2 fun ⟨t, ht, hmint⟩ => ⟨t, ?_, hmint⟩
    exact List.mem_append_left _ ht
  · intro c i ch t o k ans w' hrun hc hok ht hk he
    rcases World.exec_cases he with ⟨e, rfl, rfl⟩ | ⟨v, rfl, heff⟩
    · exact hc.failed hrun ht hk (hfate _ _ hok) he
    · exact hc.answered hrun ht hk (hfate _ _ hok) he heff
  · intro c x w' hrun hc hok hx
    exact hc.act (ownedContract hbound hrun) (hbound _ _ hok) (hfate _ _ hok) hx

/-- A request that has ended has nothing to commit any more. -/
theorem not_isMinting_of_done (h : Run ok c) {i : ℕ} {t : server.Thread}
    (ht : c.threads[i]? = some t) (hdone : t.rest.Done) : isMinting id t = false := by
  by_contra hmint
  have hmint : isMinting id t = true := by simpa using hmint
  simp only [isMinting, Bool.and_eq_true, Bool.not_eq_true', List.any_eq_true,
    List.any_eq_false] at hmint
  obtain ⟨⟨e, he, hsub⟩, hnot⟩ := hmint
  obtain ⟨gasPrice, recipient, tx, rfl⟩ := submitsMint_iff.1 hsub
  obtain ⟨articleID, address, signature, hreq, -⟩ := minting_request h ht he
  have hends := h.rest_wp serve_asks ht
  -- What the handler is proved to have done by its end.
  have hstored : Stored t.log := by
    cases hrest : t.rest with
    | ask o k => rw [hrest] at hdone; exact hdone.elim
    | ret r =>
      rw [hrest, hreq] at hends
      exact Program.wp_ret.1 hends _ _ _ _ he
    | throw f =>
      rw [hrest, hreq] at hends
      exact Program.wp_throw.1 hends _ _ _ _ he
  -- It has committed the article, or the commit, the last of its calls, has failed.
  rcases hstored with ⟨a, ha⟩ | ⟨e, he, hafter, err, herr⟩
  · exact hnot _ ha rfl
  · refine hnot e he ?_
    rw [herr]
    generalize e.1 = o at hafter
    cases o <;> first | rfl | cases hafter

/-- When no request is in progress and no mint is pending, what is stored as
    tokenized is what has a token, if mints and their requests had the same fates. -/
theorem isTokenized_iff_tokenIdOf (h : Run (keepsAgreement · ·) c) (hquiet : c.Quiet)
    (hmempool : c.world.mempool = []) : ∀ r ∈ c.world.articles.rows,
      r.isTokenized = true ↔ c.world.contract.tokenIdOf r.id ≠ 0 := by
  intro r hr
  have hc := agreement h
  constructor
  · intro hflag
    rcases hc.hasMint _ (hc.rows r hr hflag) with htoken | ⟨p, hp, -⟩
    · exact htoken
    · rw [hmempool] at hp
      cases hp
  · intro htoken
    rcases hc.pledged _ htoken with hcom | ⟨t, ht, hmint⟩
    · have hkept : Run (keepsTokenized · ·) c :=
        h.mono fun c m hm => by simp only [keepsAgreement, Bool.and_eq_true] at hm; exact hm.1.1
      exact (keptTokenized hkept).rows r hr hcom
    · obtain ⟨i, hi⟩ := List.getElem?_of_mem ht
      rw [not_isMinting_of_done h hi (hquiet t ht)] at hmint
      cases hmint

end

/-! The upload to S3 fails when the mint has been submitted, and is mined. -/

section

attribute [local instance] Hardhat.environment

open Hardhat

/-- The run in which the upload fails. -/
def failedUpload : List server.Move :=
  [register 0, createArticle 1, .arrive tokenize :: mint 2,
    steps 2 [.json "{}", .fail "connection reset"], [.act (.mine 0 [] true)]].flatten

/-- The run in which nothing fails. -/
def tokenized : List server.Move :=
  [register 0, createArticle 1, .arrive tokenize :: mint 2, storeToken 2,
    [.act (.mine 0 [] true)]].flatten

/-- An article is tokenized and its mint mined: both tell of the token. -/
theorem isTokenized_tokenized : ∃ c, Run (keepsAgreement · ·) c ∧
    ∃ r ∈ c.world.articles.rows, r.id = articleID ∧ r.isTokenized = true ∧
      c.world.contract.tokenIdOf r.id ≠ 0 := by
  obtain ⟨c, hc, hp⟩ := exists_reaches_of_run keepsAgreement tokenized (.initial World.initial)
    (fun c => c.Quiet ∧ c.world.mempool = [] ∧
      ∃ r ∈ c.world.articles.rows, r.id = articleID ∧ r.isTokenized = true)
    (by decide +kernel)
  obtain ⟨hquiet, hmempool, r, hr, hid, hflag⟩ := of_decide_eq_true hp
  exact ⟨c, hc, r, hr, hid, hflag, (isTokenized_iff_tokenIdOf hc hquiet hmempool r hr).1 hflag⟩

/-- The upload fails after the mint: the token is there, and the article is not stored as tokenized.
    -/
theorem not_isTokenized_failedUpload : ∃ c, Run Any c ∧ c.Quiet ∧ c.world.mempool = [] ∧
    ∃ r ∈ c.world.articles.rows, r.isTokenized = false ∧ c.world.contract.tokenIdOf r.id ≠ 0 := by
  obtain ⟨c, hc, hp⟩ := exists_reaches_of_run (fun _ _ => true) failedUpload
    (.initial World.initial)
    (fun c => c.Quiet ∧ c.world.mempool = [] ∧
      ∃ r ∈ c.world.articles.rows, r.isTokenized = false ∧ c.world.contract.tokenIdOf r.id ≠ 0)
    (by decide +kernel)
  exact ⟨c, hc.any, of_decide_eq_true hp⟩

end

end Knowtfolio
