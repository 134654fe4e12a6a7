import Knowtfolio.Contract.Invariant
import Knowtfolio.Server.Storage

/-!
# The server's contract

In every run the contract is the one that the account of the server owns, and
keeps its invariant, as long as the counter of its tokens does not overflow
(`boundedMints`, `ownedContract`). A mint that was submitted stays pending until
it is mined or dropped (`World.HasMint`); when it is mined, its article has a
token, or it was reverted (`mine_cases`).
-/

namespace Knowtfolio

open Interaction Machine

namespace Contract

variable [Chain] {s s' : State}

/-- A message of another account than the owner keeps everything but who owns the
    tokens. -/
theorem kept_apply (hs : Settled s) {m : Message} (hm : m.sender ≠ s.owner) :
    Kept s (m.apply s) := by
  rw [Message.apply]
  cases he : m.exec s with
  | none => exact .refl s
  | some s' => exact exec_kept (fun s₁ hs₁ => runAll_kept m.inner s₁ hs₁) hs hm he

end Contract

variable [Environment]

/-- The contract is the server's, and keeps its invariant. -/
structure OwnedContract (s : Contract.State) : Prop where
  inv : Contract.Inv s
  owner : s.owner = Environment.admin
  initialized : s.initialized = true

/-- The owner of the contract is not called back, so that nothing is minted within a mint. -/
theorem OwnedContract.settled {s : Contract.State} (h : OwnedContract s) : Contract.Settled s :=
  ⟨h.initialized, h.inv.owner⟩

/-- The account of the server has deployed the contract. -/
theorem ownedContract_initial : OwnedContract World.initialContract where
  inv := ⟨Environment.isContract_admin, nofun, fun _ h => absurd rfl h, fun _ h => absurd rfl h⟩
  owner := rfl
  initialized := rfl

/-- What keeps the tokens and the owner keeps the invariant. -/
theorem OwnedContract.kept {s s' : Contract.State} (h : OwnedContract s)
    (hk : Contract.Kept s s') : OwnedContract s' where
  inv := h.inv.of_kept hk
  owner := hk.owner.trans h.owner
  initialized := hk.initialized.trans h.initialized

/-- A mint that is mined is reverted, or gives its article a token. -/
theorem mine_cases {s : Contract.State} (hs : Contract.Settled s) (p : Mint)
    (inner : List Contract.Reentry) (accepts : Bool) :
    ((p.message inner accepts).exec s = none ∧ (p.message inner accepts).apply s = s) ∨
      ((p.message inner accepts).exec s).isSome = true ∧
        Contract.Minted s p.articleId ((p.message inner accepts).apply s) := by
  cases he : (p.message inner accepts).exec s with
  | none => exact .inl ⟨rfl, by rw [Contract.Message.apply, he]; rfl⟩
  | some s' =>
    refine .inr ⟨rfl, ?_⟩
    rw [Contract.Message.apply, he]
    exact (Contract.minted_of_mintNFT (fun s₁ hs₁ => Contract.runAll_kept inner s₁ hs₁) hs he).2

/-- A mint that goes through numbers its token. -/
theorem OwnedContract.minted {s s' : Contract.State} (h : OwnedContract s) {id : String}
    (hm : Contract.Minted s id s') (hlt : s.tokenIds + 1 < 2 ^ 256) : OwnedContract s' where
  inv := h.inv.of_minted hm hlt h.initialized
  owner := hm.owner.trans h.owner
  initialized := hm.initialized.trans h.initialized

/-- In every run the owner of the contract is the account of the server, even if the
    counter overflows. -/
theorem settledContract {ok : server.Config → server.Move → Prop} {c : server.Config}
    (h : Run ok c) :
    Contract.Settled c.world.contract ∧ c.world.contract.owner = Environment.admin := by
  refine h.induction (fun c : server.Config =>
    Contract.Settled c.world.contract ∧ c.world.contract.owner = Environment.admin)
    ⟨ownedContract_initial.settled, rfl⟩ (fun c r _ hc _ => hc) ?_ ?_
  · intro c i ch t o k ans w' _ hc _ _ _ he
    have hcontract : w'.contract = c.world.contract := World.contract_of_exec he
    exact hcontract ▸ hc
  · rintro c x w' - ⟨hs, howner⟩ - hx
    rcases World.act_cases hx with ⟨k, inner, accepts, p, rfl, -, rfl⟩ | ⟨k, p, rfl, -, rfl⟩ |
      ⟨m, rfl, hm, rfl⟩
    · show Contract.Settled ((p.message inner accepts).apply c.world.contract) ∧ _
      rcases mine_cases hs p inner accepts with ⟨-, heq⟩ | ⟨-, hm⟩
      · exact ⟨heq.symm ▸ hs, (congrArg Contract.State.owner heq).trans howner⟩
      · exact ⟨⟨hm.initialized.trans hs.initialized, by rw [hm.owner]; exact hs.owner⟩,
          hm.owner.trans howner⟩
    · exact ⟨hs, howner⟩
    · have hk := Contract.kept_apply hs (m := m) (by rwa [howner])
      exact ⟨hs.of_kept hk, hk.owner.trans howner⟩

/-- The mints that are mined are fewer than the counter can count. -/
def boundedMints (c : server.Config) : server.Move → Bool
  | .act (.mine _ _ _) => c.world.contract.tokenIds + 1 < 2 ^ 256
  | _ => true

/-- Nothing that happens on the chain breaks the invariant. -/
theorem OwnedContract.act {w w' : World} (h : OwnedContract w.contract) {x : Action}
    (hx : w.act x = some w')
    (hlt : ∀ k inner accepts, x = .mine k inner accepts → w.contract.tokenIds + 1 < 2 ^ 256) :
    OwnedContract w'.contract := by
  rcases World.act_cases hx with ⟨k, inner, accepts, p, rfl, -, rfl⟩ | ⟨k, p, rfl, -, rfl⟩ |
    ⟨m, rfl, hm, rfl⟩
  · rcases mine_cases h.settled p inner accepts with ⟨-, heq⟩ | ⟨-, hm⟩
    · show OwnedContract ((p.message inner accepts).apply w.contract)
      rw [heq]
      exact h
    · exact h.minted hm (hlt k inner accepts rfl)
  · exact h
  · exact h.kept (Contract.kept_apply h.settled (by rwa [h.owner]))

variable {ok : server.Config → server.Move → Prop} {c : server.Config}

/-- In every run with fewer than 2^256 mints, the server owns the contract, and its tokens are
    numbered in order. -/
theorem ownedContract (hok : ∀ (c : server.Config) m, ok c m → boundedMints c m = true)
    (h : Run ok c) : OwnedContract c.world.contract := by
  refine h.induction (fun c : server.Config => OwnedContract c.world.contract) ownedContract_initial
    (fun c r _ hc _ => hc) ?_ ?_
  · intro c i ch t o k ans w' _ hc _ _ _ he
    have hcontract : w'.contract = c.world.contract := World.contract_of_exec he
    exact hcontract ▸ hc
  · intro c x w' _ hc hm hx
    refine OwnedContract.act hc hx fun k inner accepts hx => ?_
    have := hok _ _ hm
    rw [hx] at this
    simpa [boundedMints] using this

/-! ## Mints -/

/-- There is a token of the article, or a mint of it is pending. -/
def World.HasMint (w : World) (id : String) : Prop :=
  w.contract.tokenIdOf id ≠ 0 ∨ ∃ p ∈ w.mempool, p.articleId = id

instance (w : World) (id : String) : Decidable (w.HasMint id) := inferInstanceAs (Decidable (_ ∨ _))

namespace World

variable {w w' : World} {id : String}

/-- Calls of requests mine nothing and drop nothing. -/
theorem HasMint.exec (h : w.HasMint id) {o : Op} {v : o.Val} (heff : Effect w o v w') :
    w'.HasMint id := by
  rcases h with h | ⟨p, hp, rfl⟩
  · exact .inl (by rwa [heff.changes.contract])
  · exact .inr ⟨p, by rw [heff.changes.mempool]; exact List.mem_append_left _ hp, rfl⟩

omit [Environment] in
/-- Of the articles of other mints nothing is lost when a mint is mined or dropped. -/
theorem HasMint.eraseIdx (h : w.HasMint id) {k : ℕ} {p : Mint} (hp : w.mempool[k]? = some p)
    (hid : id ≠ p.articleId) : HasMint { w with mempool := w.mempool.eraseIdx k } id := by
  rcases h with h | ⟨q, hq, rfl⟩
  · exact .inl h
  · obtain ⟨j, hj⟩ := List.getElem?_of_mem hq
    refine .inr ⟨q, List.mem_eraseIdx_iff_getElem?.2 ⟨j, ?_, hj⟩, rfl⟩
    rintro rfl
    cases hp.symm.trans hj
    exact hid rfl

end World

omit [Environment] in
/-- The articles that have a token after a mint. -/
theorem Contract.Minted.tokenIdOf_ne_zero {s s' : Contract.State} {id : String}
    (hm : Contract.Minted s id s') (hlt : s.tokenIds + 1 < 2 ^ 256) {id' : String} :
    s'.tokenIdOf id' ≠ 0 ↔ id' = id ∨ s.tokenIdOf id' ≠ 0 := by
  rw [hm.tokenIdOf, Contract.increment, Nat.mod_eq_of_lt hlt]
  by_cases hid : id' = id
  · simp [hid]
  · simp [hid]

/-- What a message of another account does to the tokens of the articles: nothing. -/
theorem OwnedContract.tokenIdOf_apply {s : Contract.State} (h : OwnedContract s)
    {m : Contract.Message} (hm : m.sender ≠ Environment.admin) :
    (m.apply s).tokenIdOf = s.tokenIdOf :=
  (Contract.kept_apply h.settled (by rwa [h.owner])).tokenIdOf

end Knowtfolio
