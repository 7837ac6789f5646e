import Mieru.Panel.Steps

/-!
# Enabling two-factor login

Verifying the first code and storing the secret are two accesses of the store.
The second one enables whatever secret is pending by then, which is the
verified one only if the record has not changed in between.
-/

namespace Mieru.Panel

open Mieru.Foundation

variable {file : StoreFile} {answers : FileAnswers} {st : Persisted} {enrolment : Option Enrolment}

/-- The code of the request was right for its secret. -/
structure Enrolment.Verified (crypto : PanelCrypto) (e : Enrolment) : Prop where
  nonempty : e.pendingSecret ≠ []
  opens : crypto.openAESGCM e.key e.pendingSecret = some e.secret
  valid : validateTOTPCode crypto e.secret e.code e.time = true

theorem StoreFile.base_cases (h : file.base answers = some st) : st = {} ∨ file = .content st := by
  unfold StoreFile.base at h
  split at h
  · cases h
    exact .inl rfl
  · cases file with
    | missing =>
      cases h
      exact .inl rfl
    | corrupt => cases h
    | content p =>
      cases h
      exact .inr rfl

namespace App

variable {crypto : PanelCrypto} {p p' : App} {task task' : Task} {env : StepEnv}

def SecretOK (crypto : PanelCrypto) (enrolment : Option Enrolment) (st : Persisted) : Prop :=
  st.enabled = true → ∃ e, enrolment = some e ∧ e.pendingSecret = st.secret ∧ e.Verified crypto

def FileOK (crypto : PanelCrypto) (enrolment : Option Enrolment) (file : StoreFile) : Prop :=
  ∀ st, file = .content st → SecretOK crypto enrolment st

theorem FileOK.base (h : FileOK crypto enrolment file)
    (hbase : file.base answers = some st) : SecretOK crypto enrolment st := by
  rcases StoreFile.base_cases hbase with rfl | hfile
  · intro henabled
    cases henabled
  · exact h st hfile

theorem FileOK.spoilt {file' : StoreFile}
    (h : FileOK crypto enrolment file) (hspoilt : Spoilt file file') :
    FileOK crypto enrolment file' := by
  rcases hspoilt with rfl | rfl
  · exact h
  · intro st heq
    cases heq

theorem FileOK.wrote {file' : StoreFile} {update : Persisted → Persisted} {replaced : Bool}
    (h : FileOK crypto enrolment file) (hwrote : Wrote file answers update replaced file')
    (hupdate : ∀ st, (update st).enabled = true →
      st.enabled = true ∧ (update st).secret = st.secret) : FileOK crypto enrolment file' := by
  cases hwrote with
  | spoilt hspoilt => exact h.spoilt hspoilt
  | @replaced st hbase =>
    intro after heq henabled
    cases heq
    obtain ⟨hbefore, hsecret⟩ := hupdate st henabled
    rw [hsecret]
    exact h.base hbase hbefore

def View.StoreOK (crypto : PanelCrypto) (v : View) : Prop :=
  ∀ file, v.store = some file → FileOK crypto v.history.enrolment file

/-- A task that is about to enable has verified a code. -/
def View.Verified (crypto : PanelCrypto) (_ : View) : Task → Prop
  | .verifyStore enrolment => enrolment.Verified crypto
  | _ => True

def pendingSecret (p : App) : Bytes :=
  match p.twoFAStore with
  | some (.content st) => st.pendingSecret
  | _ => []

/-- The pending secret is still the verified one when it is enabled. -/
def StillPending (p : App) (event : PanelEvent) : Prop :=
  ∀ id env enrolment, event = .step id env → p.tasks id = .verifyStore enrolment →
    env.answers.readFails = false ∧ p.pendingSecret = enrolment.pendingSecret

theorem pendingSecret_of_base (hfile : p.twoFAStore = some file)
    (hbase : file.base answers = some st) (hreads : answers.readFails = false) :
    p.pendingSecret = st.pendingSecret := by
  simp only [StoreFile.base, hreads, Bool.false_eq_true, if_false] at hbase
  cases file with
  | missing =>
    cases hbase
    simp [pendingSecret, hfile]
  | corrupt => cases hbase
  | content p =>
    cases hbase
    simp [pendingSecret, hfile]

theorem View.StoreOK.setFile {v : View} (hstore : v.store = some file)
    (h : FileOK crypto v.history.enrolment file) : v.StoreOK crypto := by
  intro other hother
  obtain rfl := Option.some.inj (hstore.symm.trans hother)
  exact h

theorem Moves.storeOK (h : Moves crypto env p task p' task')
    (hstore : p.view.StoreOK crypto) (htask : p.view.Verified crypto task)
    (hpending : ∀ enrolment, task = .verifyStore enrolment → env.answers.readFails = false ∧
        p.pendingSecret = enrolment.pendingSecret) :
    p'.view.StoreOK crypto ∧ p'.view.Verified crypto task' := by
  cases h with
  | notRemoved hfile hwrote =>
    refine ⟨.setFile rfl ((hstore _ hfile).wrote hwrote ?_), trivial⟩
    exact fun st henabled => ⟨henabled, rfl⟩
  | @removed cfg req now key state st time idx file hfile hbase hlt =>
    refine ⟨.setFile rfl ?_, trivial⟩
    have hsecret := (hstore _ hfile).base hbase
    intro after heq henabled
    cases heq
    exact hsecret henabled
  | setupStored hfile hwrote =>
    refine ⟨.setFile rfl ((hstore _ hfile).wrote hwrote ?_), trivial⟩
    exact fun st henabled => ⟨henabled, rfl⟩
  | verified hfile hread hne hopens hvalid =>
    exact ⟨hstore, hne, hopens, hvalid⟩
  | notEnabled hfile hspoilt | notRegenerated hfile hspoilt =>
    exact ⟨.setFile rfl ((hstore _ hfile).spoilt hspoilt), trivial⟩
  | @enabled enrolment file st hashes reply hfile hbase =>
    obtain ⟨hreads, hsame⟩ := hpending enrolment rfl
    refine ⟨.setFile rfl ?_, trivial⟩
    intro after heq _
    cases heq
    refine ⟨enrolment, rfl, ?_, htask⟩
    rw [← hsame, pendingSecret_of_base hfile hbase hreads]
    rfl
  | disableStored hfile hwrote =>
    refine ⟨.setFile rfl ((hstore _ hfile).wrote hwrote ?_), trivial⟩
    intro st henabled
    cases henabled
  | @regenerated file st hashes reply hfile hbase =>
    refine ⟨.setFile rfl ?_, trivial⟩
    have hsecret := (hstore _ hfile).base hbase
    intro after heq henabled
    cases heq
    exact hsecret henabled
  | _ => exact ⟨hstore, trivial⟩

def IsEmpty (p : App) : Prop := p.IsInitial ∧ p.twoFAStore = some .missing

end App

def enrolmentSystem (crypto : PanelCrypto) : System App PanelEvent :=
  System.ofNext App.IsEmpty (App.next crypto)

namespace App

variable {crypto : PanelCrypto} {p : App}

def soundSecret (crypto : PanelCrypto) : TaskInvariant crypto IsEmpty StillPending where
  inv := View.StoreOK crypto
  ok := View.Verified crypto
  inv_init p hinit := by
    refine ⟨hinit.1, .setFile hinit.2 ?_⟩
    intro st heq
    cases heq
  ok_first v task hfirst := by
    cases task <;> trivial
  step p p' id env task' hguard hstore htask hmoves := by
    obtain ⟨hafter, htask'⟩ := hmoves.storeOK hstore htask
      fun enrolment => hguard id env enrolment rfl
    exact ⟨hafter, htask', fun _ hother => hother⟩

/--
If the pending secret is still the verified one whenever a request enables it,
then the secret of an enabled store is not empty, and it is the one for which
the request that enabled it had a valid code.
-/
theorem enabled_secret_verified {st : Persisted}
    (h : (enrolmentSystem crypto).ReachableBy StillPending p)
    (hst : p.twoFAStore = some (.content st)) (henabled : st.enabled = true) :
    st.secret ≠ [] ∧ ∃ e, p.history.enrolment = some e ∧
      e.pendingSecret = st.secret ∧ e.Verified crypto := by
  obtain ⟨e, henrolment, hsecret, hverified⟩ :=
    ((soundSecret crypto).holds h).1 _ hst st rfl henabled
  refine ⟨?_, e, henrolment, hsecret, hverified⟩
  rw [← hsecret]
  exact hverified.nonempty

def emptyPanel : App where
  config := adminConfig
  twoFAKey := some (List.replicate 32 0)
  twoFAStore := some .missing
  totpLockout := some {}

theorem isEmpty_emptyPanel : emptyPanel.IsEmpty :=
  ⟨⟨rfl, rfl, rfl, rfl, rfl, rfl, rfl⟩, rfl⟩

def setupEvents (id : Nat) (blob : Bytes) : List PanelEvent :=
  [.request id { call := .setup2FA }, .step id {}, .step id { generated := some (blob, blob) }]

def verifyRequest : Request where
  call := .verifySetup2FA (some (List.replicate 6 49))

def storeStep (id : Nat) : PanelEvent := .step id { codes := some [] }

def checkPending (p : App) : PanelEvent → Bool
  | .step id env =>
    match p.tasks id with
    | .verifyStore enrolment => !env.answers.readFails && p.pendingSecret == enrolment.pendingSecret
    | _ => true
  | _ => true

theorem stillPending_of_check (p : App) (event : PanelEvent)
    (h : p.checkPending event = true) : p.StillPending event := by
  rintro id env enrolment rfl htask
  simp only [checkPending, htask, Bool.and_eq_true, beq_iff_eq] at h
  exact ⟨by simpa using h.1, h.2⟩

/-- One setup, and the verification of its secret. -/
theorem enabled_secret_verified_setup :
    ∃ p st, (enrolmentSystem plainCrypto).ReachableBy StillPending p ∧
      p.twoFAStore = some (.content st) ∧ st.enabled = true ∧
      st.secret ≠ [] ∧ ∃ e, p.history.enrolment = some e ∧
        e.pendingSecret = st.secret ∧ e.Verified plainCrypto := by
  obtain ⟨p, hreachable, hstore⟩ : ∃ p,
      (enrolmentSystem plainCrypto).ReachableBy StillPending p ∧
        p.twoFAStore = some (.content { enabled := true, secret := [1] }) :=
    System.exists_reachableBy stillPending_of_check isEmpty_emptyPanel
      (setupEvents 0 [1] ++ [.request 1 verifyRequest, .step 1 {}, storeStep 1])
      (by decide +kernel)
  exact ⟨p, _, hreachable, hstore, rfl, enabled_secret_verified hreachable hstore rfl⟩

/--
Between the check of the code and the write another setup stores its secret,
which is enabled although no code was verified for it.  Two requests that
verify the same secret leave the store enabled with an empty one.
-/
theorem unverified_secret_enabled : (∃ p e, (enrolmentSystem plainCrypto).Reachable p ∧
      p.twoFAStore = some (.content { enabled := true, secret := [2] }) ∧
      p.history.enrolment = some e ∧ e.pendingSecret = [1]) ∧
    ∃ p, (enrolmentSystem plainCrypto).Reachable p ∧
      p.twoFAStore = some (.content { enabled := true, secret := [] }) := by
  constructor
  · obtain ⟨p, hreachable, hstore, henrolment⟩ : ∃ p, (enrolmentSystem plainCrypto).Reachable p ∧
        p.twoFAStore = some (.content { enabled := true, secret := [2] }) ∧
        p.history.enrolment.map Enrolment.pendingSecret = some [1] :=
      System.exists_reachable isEmpty_emptyPanel
        (setupEvents 0 [1] ++ [.request 1 verifyRequest, .step 1 {}] ++
          setupEvents 2 [2] ++ [storeStep 1]) (by decide +kernel)
    obtain ⟨e, he, hsecret⟩ := Option.map_eq_some_iff.mp henrolment
    exact ⟨p, e, hreachable, hstore, he, hsecret⟩
  · exact System.exists_reachable isEmpty_emptyPanel
      (setupEvents 0 [1] ++ [.request 1 verifyRequest, .step 1 {},
        .request 2 verifyRequest, .step 2 {}, storeStep 1, storeStep 2]) (by decide +kernel)

end App

end Mieru.Panel
