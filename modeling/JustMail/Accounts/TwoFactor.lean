import JustMail.Accounts.Login
import JustMail.Foundation.Tasks

/-! The second factor of an account: `setupTwoFa`, `verifyTwoFa` and `disableTwoFa` of `AuthService`
read the row, decide, and write it in a later statement. Calls for one account run at the same time. -/
namespace JustMail.Accounts
open Foundation

section Model

/-- The account, and the secrets for which a call of `verifyTwoFa` has seen a valid code. -/
structure TwoFaState where
  user : UserRow
  confirmed : List JsString

/-- `setup` carries the secret that it draws, as `seal` leaves it. -/
inductive TwoFaCall where
  | setup (sealed : JsString)
  | verify (code : JsString)
  | disable (password : JsString)

inductive TwoFaInstr where
  | selectEnabled (sealed : JsString)
  | updateSecret (sealed : JsString)
  | selectSecret (code : JsString)
  -- the UPDATE is keyed by the user; the secret is the one that the call has read
  | updateEnabled (sealed : JsString)
  | selectHash (password : JsString)
  | updateDisabled
  deriving DecidableEq

def TwoFaCall.body : TwoFaCall → List TwoFaInstr
  | .setup sealed => [.selectEnabled sealed]
  | .verify code => [.selectSecret code]
  | .disable password => [.selectHash password]

-- `totpValid now secret code`: which codes are valid changes with time.
variable (crypto : Crypto) (totpValid : Nat → JsString → JsString → Bool)

/-- A statement with the decision that follows it. -/
def execTwoFa (s : TwoFaState) (instr : TwoFaInstr) (now : Nat) : Option (TwoFaState × Outcome TwoFaInstr) :=
  match instr with
  | .selectEnabled sealed => some (s,if s.user.totpEnabled then .throw else .next [.updateSecret sealed])
  | .updateSecret sealed => some ({ s with user := { s.user with totpSecret := some sealed } },.next [])
  | .selectSecret code =>
    match s.user.totpSecret.filter (!·.isEmpty) with
    | none => some (s,.throw)
    | some sealed =>
      if s.user.totpEnabled then some (s,.throw)
      else if totpValid now (crypto.openSealed sealed) code then
        some ({ s with confirmed := s.confirmed ++ [crypto.openSealed sealed] },.next [.updateEnabled sealed])
      else some (s,.throw)
  | .updateEnabled _ => some ({ s with user := { s.user with totpEnabled := true } },.next [])
  | .selectHash password => some (s,if s.user.passwordHash.any (crypto.argon2Verify · password) then .next [.updateDisabled] else .throw)
  | .updateDisabled => some ({ s with user := { s.user with totpEnabled := false, totpSecret := none } },.next [])

abbrev TwoFaTasks := Tasks TwoFaState TwoFaInstr

def twoFaStep : TwoFaTasks → TaskAction TwoFaCall Nat → Option TwoFaTasks := taskStep (execTwoFa crypto totpValid) TwoFaCall.body

/-- The account has a secret, and has shown a valid code for it. -/
def HoldsConfirmed (s : TwoFaState) : Prop := ∃ sealed ∈ s.user.totpSecret, crypto.openSealed sealed ∈ s.confirmed

/-- Codes are asked for a confirmed secret alone, and a login has one to look at. -/
structure TwoFaConsistent (s : TwoFaState) : Prop where
  confirmed : s.user.totpEnabled = true → HoldsConfirmed crypto s
  login : ∀ req, checkTotp crypto s.user req ≠ .error .database

/-- What a call has read of the row is there still when it writes. -/
def TimelyWrite (s : TwoFaState) : TwoFaInstr → Prop
  | .updateSecret _ => s.user.totpEnabled = false
  | .updateEnabled sealed => s.user.totpSecret = some sealed
  | _ => True

instance (s : TwoFaState) : (instr : TwoFaInstr) → Decidable (TimelyWrite s instr)
  | .updateSecret _ => inferInstanceAs (Decidable (_ = false))
  | .updateEnabled _ => inferInstanceAs (Decidable (_ = some _))
  | .selectEnabled _ | .selectSecret _ | .selectHash _ | .updateDisabled => .isTrue trivial

def TwoFaAllowed (s : TwoFaTasks) (a : TaskAction TwoFaCall Nat) : Prop := ∀ instr ∈ s.instr a, TimelyWrite s.shared instr

instance (s : TwoFaTasks) (a : TaskAction TwoFaCall Nat) : Decidable (TwoFaAllowed s a) :=
  inferInstanceAs (Decidable (∀ instr ∈ s.instr a, TimelyWrite s.shared instr))

end Model

section Runs
variable {crypto : Crypto} {totpValid : Nat → JsString → JsString → Bool} {s s' : TwoFaState} {instr : TwoFaInstr} {now : Nat}
  {outcome : Outcome TwoFaInstr} {t : TwoFaTasks}

/-- Where there is a secret, `login` does not fail on one that is missing. -/
theorem consistent_of_confirmed (h : s.user.totpEnabled = true → HoldsConfirmed crypto s) : TwoFaConsistent crypto s := by
  refine ⟨h,fun req hlogin => ?_⟩
  rw [checkTotp] at hlogin
  split at hlogin
  · rename_i henabled
    obtain ⟨sealed,hsealed,-⟩ := h henabled
    split at hlogin
    · simp at hlogin
    · rw [Option.mem_def.mp hsealed] at hlogin
      dsimp only at hlogin
      split at hlogin <;> simp at hlogin
  · simp at hlogin

/-- What a statement can do to the account and to the confirmed secrets. -/
inductive TwoFaMoved (s : TwoFaState) : TwoFaInstr → TwoFaState → Prop where
  | read (instr : TwoFaInstr) : TwoFaMoved s instr s
  | confirmed (code secret : JsString) : TwoFaMoved s (.selectSecret code) { s with confirmed := s.confirmed ++ [secret] }
  | secret (sealed : JsString) : TwoFaMoved s (.updateSecret sealed) { s with user := { s.user with totpSecret := some sealed } }
  | enabled (sealed : JsString) : TwoFaMoved s (.updateEnabled sealed) { s with user := { s.user with totpEnabled := true } }
  | disabled : TwoFaMoved s .updateDisabled { s with user := { s.user with totpEnabled := false, totpSecret := none } }

theorem twoFaMoved_of_exec (h : execTwoFa crypto totpValid s instr now = some (s',outcome)) : TwoFaMoved s instr s' := by
  cases instr with
  | selectEnabled sealed =>
    cases h
    exact .read _
  | updateSecret sealed =>
    cases h
    exact .secret sealed
  | selectSecret code =>
    rw [execTwoFa] at h
    split at h
    · cases h
      exact .read _
    · split at h
      · cases h
        exact .read _
      · split at h
        · cases h
          exact .confirmed code _
        · cases h
          exact .read _
  | updateEnabled sealed =>
    cases h
    exact .enabled sealed
  | selectHash password =>
    cases h
    exact .read _
  | updateDisabled =>
    cases h
    exact .disabled

/-- A valid code has been seen for the secret with which a call goes on to its `UPDATE`. -/
def Shown (crypto : Crypto) (s : TwoFaState) : TwoFaInstr → Prop
  | .updateEnabled sealed => crypto.openSealed sealed ∈ s.confirmed
  | _ => True

theorem Shown.moved {x : TwoFaInstr} (h : Shown crypto s x) (hmoved : TwoFaMoved s instr s') : Shown crypto s' x := by
  cases x with
  | updateEnabled sealed =>
    cases hmoved with
    | confirmed code secret => exact List.mem_append_left _ h
    | _ => exact h
  | _ => trivial

/-- `verifyTwoFa` goes on with the secret that it has read, once the code is valid for it. -/
theorem shown_of_exec (h : execTwoFa crypto totpValid s instr now = some (s',outcome)) : outcome.Adds (Shown crypto s') := by
  cases instr with
  | selectEnabled sealed =>
    cases h
    exact Outcome.adds_ite (fun _ => trivial) fun _ => Outcome.adds_one trivial
  | selectSecret code =>
    rw [execTwoFa] at h
    split at h
    · cases h
      trivial
    · rename_i sealed _
      split at h
      · cases h
        trivial
      · split at h
        · cases h
          exact Outcome.adds_one (List.mem_append_right _ List.mem_cons_self)
        · cases h
          trivial
  | selectHash password =>
    cases h
    exact Outcome.adds_ite (fun _ => Outcome.adds_one trivial) fun _ => trivial
  | updateSecret _ | updateEnabled _ | updateDisabled =>
    cases h
    exact Outcome.adds_nil _

/-- The columns are consistent, and so is what the calls in flight are about to write. -/
structure TwoFaInv (crypto : Crypto) (s : TwoFaTasks) : Prop where
  consistent : TwoFaConsistent crypto s.shared
  shown : ∀ x, s.Pending x → Shown crypto s.shared x

theorem consistent_moved (h : TwoFaConsistent crypto s) (hshown : Shown crypto s instr) (hmoved : TwoFaMoved s instr s')
    (htimely : TimelyWrite s instr) : TwoFaConsistent crypto s' := by
  refine consistent_of_confirmed fun henabled => ?_
  cases hmoved with
  | read => exact h.confirmed henabled
  | confirmed code secret =>
    obtain ⟨sealed,hsealed,hconfirmed⟩ := h.confirmed henabled
    exact ⟨sealed,hsealed,List.mem_append_left _ hconfirmed⟩
  | secret sealed =>
    -- A secret is written only where no codes are asked for.
    have hoff : s.user.totpEnabled = false := htimely
    rw [hoff] at henabled
    simp at henabled
  | enabled sealed => exact ⟨sealed,htimely,hshown⟩
  | disabled => simp at henabled

theorem twoFaInv_step {s t : TwoFaTasks} {a : TaskAction TwoFaCall Nat} (h : TwoFaInv crypto s) (hallowed : TwoFaAllowed s a)
    (hstep : twoFaStep crypto totpValid s a = some t) : TwoFaInv crypto t := by
  obtain ⟨call,-,rfl⟩ | ⟨i,now,instr,rest,s',outcome,rfl,htask,hexec,rfl⟩ := taskStep_cases hstep
  · refine ⟨h.consistent,fun x hx => ?_⟩
    rcases Tasks.pending_call hx with hx | hx
    · exact h.shown x hx
    · cases call <;> rw [List.mem_singleton.mp hx] <;> trivial
  · have hmoved := twoFaMoved_of_exec hexec
    have hshown := h.shown instr (Tasks.pending_head htask)
    exact ⟨consistent_moved h.consistent hshown hmoved (hallowed instr (Tasks.instr_exec htask)),
      Tasks.forall_pending_exec htask (fun x hx => (h.shown x hx).moved hmoved) (shown_of_exec hexec)⟩

/-- In every run in which a secret is written only while no codes are asked for, and codes are switched on
only while the row holds the secret that the call has read, the two columns stay consistent. -/
theorem two_factor_consistent {start : TwoFaState} (hstart : TwoFaConsistent crypto start)
    (hrun : Run (twoFaStep crypto totpValid) TwoFaAllowed ⟨start,[]⟩ t) : TwoFaConsistent crypto t.shared := by
  have hkept : ∀ s a t, TwoFaInv crypto s → TwoFaAllowed s a → twoFaStep crypto totpValid s a = some t → TwoFaInv crypto t :=
    fun _ _ _ => twoFaInv_step
  have hinv : TwoFaInv crypto ⟨start,[]⟩ := by
    refine ⟨hstart,?_⟩
    rintro x ⟨task,htask,-⟩
    exact absurd htask List.not_mem_nil
  exact (hrun.invariant hkept hinv).consistent

/-- A code is valid if it is the secret itself. -/
def sampleTotp (_ : Nat) (secret code : JsString) : Bool := secret == code

def noSecondFactor : TwoFaTasks := ⟨⟨⟨1,js "a@b.c",js "A",some (js "h:pw"),none,false,.active⟩,[]⟩,[]⟩

theorem noSecondFactor_consistent : TwoFaConsistent plainCrypto noSecondFactor.shared :=
  consistent_of_confirmed fun henabled => absurd henabled (by decide)

def twoFaAfter (allowed : TwoFaTasks → TaskAction TwoFaCall Nat → Prop) [∀ s a, Decidable (allowed s a)]
    (actions : List (TaskAction TwoFaCall Nat)) :
    Option (Bool × Option JsString × List JsString) :=
  (runActions (twoFaStep plainCrypto sampleTotp) allowed noSecondFactor actions).map fun s =>
    (s.shared.user.totpEnabled,s.shared.user.totpSecret,s.shared.confirmed)

/-- The account sets up the secret `k`, and a call of `verifyTwoFa` has seen a valid code. -/
def verifyingK : List (TaskAction TwoFaCall Nat) :=
  [.call (.setup (js "k")),.exec 0 0,.exec 0 0,.call (.verify (js "k")),.exec 1 1]

theorem confirmed_secret_enabled : ∃ t, Run (twoFaStep plainCrypto sampleTotp) TwoFaAllowed noSecondFactor t ∧
    t.shared.user.totpEnabled = true ∧ t.shared.user.totpSecret = some (js "k") ∧ TwoFaConsistent plainCrypto t.shared := by
  have hactions : twoFaAfter TwoFaAllowed (verifyingK ++ [.exec 1 1]) = some (true,some (js "k"),[js "k"]) := by decide
  obtain ⟨t,ht,hcolumns⟩ := Option.map_eq_some_iff.mp hactions
  simp only [Prod.mk.injEq] at hcolumns
  have hrun := Run.of_actions ht
  exact ⟨t,hrun,hcolumns.1,hcolumns.2.1,two_factor_consistent noSecondFactor_consistent hrun⟩

/-- Before `verifyTwoFa` writes, the second factor is disabled, and `login` finds no secret; or another
secret is set up, and `login` asks for codes of a secret that nobody has confirmed. -/
theorem unconfirmed_secret_enabled :
    (∃ t, Run (twoFaStep plainCrypto sampleTotp) (fun _ _ => True) noSecondFactor t ∧
      t.shared.user.totpEnabled = true ∧ t.shared.user.totpSecret = none ∧ ¬TwoFaConsistent plainCrypto t.shared) ∧
    ∃ t, Run (twoFaStep plainCrypto sampleTotp) (fun _ _ => True) noSecondFactor t ∧
      t.shared.user.totpEnabled = true ∧ t.shared.user.totpSecret = some (js "l") ∧ js "l" ∉ t.shared.confirmed ∧
      ¬TwoFaConsistent plainCrypto t.shared := by
  constructor
  · have hactions : twoFaAfter (fun _ _ => True) (verifyingK ++ [.call (.disable (js "pw")),.exec 2 1,.exec 2 1,.exec 1 1]) =
        some (true,none,[js "k"]) := by decide
    obtain ⟨t,ht,hcolumns⟩ := Option.map_eq_some_iff.mp hactions
    simp only [Prod.mk.injEq] at hcolumns
    obtain ⟨henabled,hsecret,-⟩ := hcolumns
    refine ⟨t,.of_actions ht,henabled,hsecret,fun h => ?_⟩
    obtain ⟨sealed,hsealed,-⟩ := h.confirmed henabled
    simp [hsecret] at hsealed
  · have hactions : twoFaAfter (fun _ _ => True) (verifyingK ++ [.call (.setup (js "l")),.exec 2 1,.exec 2 1,.exec 1 1]) =
        some (true,some (js "l"),[js "k"]) := by decide
    obtain ⟨t,ht,hcolumns⟩ := Option.map_eq_some_iff.mp hactions
    simp only [Prod.mk.injEq] at hcolumns
    obtain ⟨henabled,hsecret,hconfirmed⟩ := hcolumns
    have hunconfirmed : js "l" ∉ t.shared.confirmed := by rw [hconfirmed]; decide
    refine ⟨t,.of_actions ht,henabled,hsecret,hunconfirmed,fun h => ?_⟩
    obtain ⟨sealed,hsealed,hmem⟩ := h.confirmed henabled
    obtain rfl := Option.some.inj (hsecret.symm.trans hsealed)
    exact hunconfirmed hmem

end Runs
end JustMail.Accounts
