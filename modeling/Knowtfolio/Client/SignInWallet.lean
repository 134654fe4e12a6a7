import Knowtfolio.Lambda.SignIn

/-!
# Signing in with a wallet, from the client

`signInToCognitoWithWallet` of `client/src/apis/cognito.ts`: the client has the wallet sign
the text of the challenge that it is shown, and answers with the signature.

That only a signature of the registered address signs its user in is the safety of the
protocol (`SignIn.issueTokens_only_signed`). Here the client takes part in it, as it is
written. Whatever was answered before, and whatever happens between the triggers, the
authentication then ends with the answer, and its user is signed in exactly if the address
registered is that of the wallet (`SignIn.signInToCognitoWithWallet`).
-/

namespace Knowtfolio

open Interaction

namespace Client

/-- `customChallenge`, of `signInToCognitoWithWallet`: what is answered to a challenge, with
    `web3.eth.personal.sign`. -/
def customChallenge (sign : String → String) (challengeParameters : Parameters) :
    ChallengeAnswer :=
  .string (sign (challengeParameters.get "sign_message"))

end Client

/-- The text that a challenge shows is the one that its answer is verified with. -/
theorem get_publicChallengeParameters (nonce : Hash) :
    (challengeOf nonce).publicChallengeParameters.get "sign_message" =
      signedData ((challengeOf nonce).privateChallengeParameters.get "message")
        (some (hexToHash ((challengeOf nonce).privateChallengeParameters.get "nonce"))) := by
  have hnonce : (challengeOf nonce).privateChallengeParameters.get "nonce" = nonce.hex := rfl
  rw [hnonce, hexToHash_hex]
  rfl

section

variable [Environment]

/-- How an answer is verified if it is signed by `account`, and the address `a` is
    registered. -/
theorem run_verifyAuthChallengeResponse {w : World} {user sign : String} {a account : Address}
    {params : Parameters}
    (ha : (w.lookup .userIDToWalletAddress user).map hexToAddress = some a)
    (hsign : recoverSigner sign (signedData (params.get "message")
      (some (hexToHash (params.get "nonce")))) = some account) :
    Program.run World.exec w (verifyAuthChallengeResponse ⟨user, params, .string sign, false⟩)
      [.ok] = some (.ok ⟨user, params, .string sign, a = account⟩, w) := by
  obtain ⟨value, hvalue, rfl⟩ := Option.map_eq_some_iff.1 ha
  obtain ⟨item, hitem, hitem_value⟩ := Option.map_eq_some_iff.1 hvalue
  have hread : World.exec w (.getItem .userIDToWalletAddress user) .ok =
      some (.ok (some (some value)), w) := by
    show some (Except.ok _, w) = _
    rw [hitem, Option.map_some, hitem_value]
  have haddress : Program.runLeaving World.exec w (getAddressByID user) [.ok] =
      some ((.ok (hexToAddress value), w), []) := by
    show (World.exec w (.getItem .userIDToWalletAddress user) .ok).bind _ = _
    rw [hread]
    rfl
  rw [verifyAuthChallengeResponse, Program.run_bind, haddress, Option.bind_some]
  rcases verifySignature_cases sign (params.get "message")
    (some (hexToHash (params.get "nonce"))) with ⟨hnone, -⟩ | ⟨signer, hsigner, hverify⟩
  · rw [hnone] at hsign
    cases hsign
  · obtain rfl : signer = account := Option.some.inj (hsigner.symm.trans hsign)
    dsimp only
    rw [hverify]
    by_cases heq : hexToAddress value = signer
    · rw [heq, if_neg (not_not.2 rfl)]
      simp [Program.run]
    · rw [if_pos (mt Address.string_inj.1 heq)]
      simp [heq, Program.run]

namespace SignIn

variable {user : String} {s : server.Config} {c c' : Config} {m : Move}

/-- Whether a move answers a challenge. -/
def Move.answers : Move → Bool
  | .verify _ _ | .other _ => true
  | _ => false

namespace Config

/-- The challenge stays as long as no other one is created. -/
theorem privateChallengeParameters_next (hm : ∀ choice, m ≠ .create choice)
    (h : c.next user m = some c') :
    c'.privateChallengeParameters = c.privateChallengeParameters := by
  cases effect_of_next h with
  | create _ _ => exact absurd rfl (hm _)
  | server _ | define _ | verify _ _ _ | verifyError _ | other _ => rfl

/-- The session stays as long as nothing is answered. -/
theorem session_next (hm : m.answers = false) (h : c.next user m = some c') :
    c'.session = c.session := by
  cases effect_of_next h with
  | verify _ _ _ | verifyError _ | other _ => cases hm
  | server _ | define _ | create _ _ => rfl

/-- A challenge is made of the nonce that is generated. -/
theorem next_create {n : Hash} (h : c.next user (.create (.nonce n)) = some c') :
    c'.privateChallengeParameters = some (challengeOf n).privateChallengeParameters := by
  obtain ⟨⟨r, s'⟩, hinvoke, rfl⟩ := Option.map_eq_some_iff.1 h
  obtain ⟨w, hrun, rfl⟩ := invoke_eq_some hinvoke
  obtain ⟨⟨r', w'⟩, he, hret⟩ := Option.bind_eq_some_iff.1 hrun
  simp only [World.exec] at he
  split_ifs at he
  cases he
  cases hret
  rfl

/-- An answer that `account` has signed is correct if this is the address registered. -/
theorem next_verify {sign : String} {a account : Address} {params : Parameters}
    (hparams : c.privateChallengeParameters = some params) (ha : c.address user = some a)
    (hsign : recoverSigner sign (signedData (params.get "message")
      (some (hexToHash (params.get "nonce")))) = some account)
    (h : c.next user (.verify (.string sign) .ok) = some c') :
    c'.session = c.session ++ [⟨customChallenge, a = account⟩] := by
  rw [next, hparams, Option.bind_some, invoke, run_verifyAuthChallengeResponse ha hsign] at h
  cases h
  rfl

/-- After an answer to a challenge of the triggers, the authentication ends. -/
theorem invoke_defineAuthChallenge {correct : Bool}
    (hlast : c.session.getLast? = some ⟨customChallenge, correct⟩) (choice : Choice) :
    c.invoke (defineAuthChallenge (c.defineEvent user)) choice =
      some (.ok ((c.defineEvent user).respond
        ({ · with issueTokens := correct, failAuthentication := !correct })), c.system) := by
  have hdefine : defineAuthChallenge (c.defineEvent user) = pure ((c.defineEvent user).respond
      ({ · with issueTokens := correct, failAuthentication := !correct })) := by
    have hsession : (c.defineEvent user).session.getLast? = some ⟨customChallenge, correct⟩ :=
      hlast
    rw [defineAuthChallenge, hsession]
    cases correct <;> rfl
  rw [invoke, hdefine]
  rfl

end Config

/-- If the wallet signs the text of a challenge, for its account, and the answer is verified
    against this challenge, then the authentication ends with it; and tokens are issued
    exactly if the account is the address registered. -/
theorem signInToCognitoWithWallet (hs : Run Machine.Any s) {before between after : List Move}
    (hbefore : Trace.run (Config.next user) (.start s) before = some c) {a account : Address}
    (ha : c.address user = some a) {n : Hash} {sign : String → String}
    (hsign : recoverSigner (sign (generateSignData signInMessage n))
      (generateSignData signInMessage n) = some account)
    (hbetween : ∀ choice, .create choice ∉ between) (hafter : ∀ m ∈ after, m.answers = false)
    (h : Trace.run (Config.next user) c (.create (.nonce n) :: (between ++
      .verify (Client.customChallenge sign (challengeOf n).publicChallengeParameters) .ok ::
        after)) = some c')
    (choice : Choice) :
    c'.invoke (defineAuthChallenge (c'.defineEvent user)) choice =
      some (.ok ((c'.defineEvent user).respond
        ({ · with issueTokens := a = account, failAuthentication := a ≠ account })),
        c'.system) := by
  obtain ⟨c₁, hcreate, hrest⟩ := Option.bind_eq_some_iff.1 h
  obtain ⟨c₂, c₃, hrun, hverify, hend⟩ := Trace.run_append_cons hrest
  -- The challenge is the one that the answer is verified with.
  have hparams : c₂.privateChallengeParameters =
      some (challengeOf n).privateChallengeParameters := by
    refine Trace.invariant_of_forall (P := fun m => ∀ choice, m ≠ .create choice)
      (fun c : Config => c.privateChallengeParameters =
        some (challengeOf n).privateChallengeParameters) hrun ?_ (Config.next_create hcreate) ?_
    · rintro m hm choice rfl
      exact hbetween choice hm
    · intro c m c' hm hc hn
      exact (Config.privateChallengeParameters_next hm hn).trans hc
  -- The address stays registered.
  have hasking : c.Asking :=
    Trace.invariant _ hbefore (.start hs) fun _ _ _ hc hn => hc.next hn
  have haddress : c₂.address user = some a := by
    refine (Trace.invariant (fun c : Config => c.Asking ∧ c.address user = some a) hrun
      ⟨hasking.next hcreate, Config.address_next hasking hcreate ha⟩ ?_).2
    rintro c m c' ⟨hc, ha⟩ hn
    exact ⟨hc.next hn, Config.address_next hc hn ha⟩
  have hsession : c₃.session = c₂.session ++ [⟨customChallenge, a = account⟩] := by
    refine Config.next_verify hparams haddress ?_ hverify
    rw [← get_publicChallengeParameters]
    exact hsign
  have hlast : c'.session.getLast? = some ⟨customChallenge, a = account⟩ := by
    refine Trace.invariant_of_forall (P := fun m : Move => m.answers = false)
      (fun c : Config => c.session.getLast? = some ⟨customChallenge, decide (a = account)⟩)
      hend hafter (by simp [hsession]) ?_
    intro c m c' hm hc hn
    rw [Config.session_next hm hn, hc]
  rw [Config.invoke_defineAuthChallenge hlast]
  simp

end SignIn

end

/-! The author registers an address, and signs in with its wallet. -/

section

namespace SignIn

open Hardhat

attribute [local instance] authorEnvironment

/-- The wallet of the author. -/
def authorSign (_ : String) : String := "0x" ++ challengeSignature

/-- The moves up to the first trigger. -/
def registerMoves : List Move :=
  [.server (.arrive (.putUserWallet "author" author.string)), .server (.step 0 (.nonce nonce)),
    .server (.step 0 .ok), .define .ok]

/-- The moves of a challenge, during which somebody else comes. -/
def walletMoves : List Move :=
  .create (.nonce challengeNonce) :: ([.server (.arrive (.read articleID))] ++
    .verify (Client.customChallenge authorSign
      (challengeOf challengeNonce).publicChallengeParameters) .ok :: [.define .ok])

/-- The author has registered the wallet, and signs in with it. -/
theorem signInToCognitoWithWallet_author : ∃ c c' : Config,
    Trace.run (Config.next "author") (.start (.initial World.initial)) registerMoves = some c ∧
    Trace.run (Config.next "author") c walletMoves = some c' ∧
    c'.invoke (defineAuthChallenge (c'.defineEvent "author")) .ok =
      some (.ok ((c'.defineEvent "author").respond
        ({ · with issueTokens := true, failAuthentication := false })), c'.system) := by
  have hrun : (Trace.run (Config.next "author") (.start (.initial World.initial))
      registerMoves).any (fun c => c.address "author" = some author ∧
        (Trace.run (Config.next "author") c walletMoves).isSome = true) = true := by
    decide +kernel
  obtain ⟨c, hc, hrest⟩ := (Option.any_eq_true _ _).1 hrun
  obtain ⟨haddress, hwallet⟩ := of_decide_eq_true hrest
  obtain ⟨c', hc'⟩ := Option.isSome_iff_exists.1 hwallet
  refine ⟨c, c', hc, hc', ?_⟩
  have hsign : recoverSigner (authorSign (generateSignData signInMessage challengeNonce))
      (generateSignData signInMessage challengeNonce) = some author := by
    decide +kernel
  simpa using signInToCognitoWithWallet .refl hc haddress hsign (by simp) (by simp [Move.answers])
    hc' .ok

end SignIn

end

end Knowtfolio
