import Mieru.Panel.Steps

/-!
# Who gets a session of the panel

Every token the panel hands out goes back to a request with the password of
the administrator, and every session cookie of a second step to a valid code.
A cookie is accepted by its signature alone; as challenge tokens have the same
form and key, the password step already returns a value that is accepted.
-/

namespace Mieru.Panel

open Mieru.Foundation

variable {secret text : Bytes} {issues : List Issue}

variable {crypto : PanelCrypto}

theorem not_mem_hexEncode (bytes : Bytes) : separator ∉ hexEncode bytes := by
  have hdigit : ∀ n : Fin 16, hexDigit n ≠ separator := by decide
  intro h
  obtain ⟨byte, -, hbyte⟩ := List.mem_flatMap.mp h
  have hlt := byte.toNat_lt
  simp only [List.mem_cons, List.not_mem_nil, or_false] at hbyte
  rcases hbyte with hhigh | hlow
  · exact hdigit ⟨byte.toNat / 16, by omega⟩ hhigh.symm
  · exact hdigit ⟨byte.toNat % 16, by omega⟩ hlow.symm

theorem Signed.unique {payload other : Bytes} (h : Signed crypto secret text payload)
    (hother : Signed crypto secret text other) : payload = other := by
  have heq := Option.some.inj (h.symm.trans hother)
  exact (append_cons_inj (not_mem_hexEncode _) (not_mem_hexEncode _) heq).1

def CodeValid (crypto : PanelCrypto) (code key : Bytes) (state : Persisted) (time : Int) : Prop :=
  ∃ secret, crypto.openAESGCM key state.secret = some secret ∧
    (validateTOTPCode crypto secret code time = true ∨
      ∃ idx, matchBackupCode crypto code state.backupCodes = some idx)

namespace Issue

def PasswordCorrect (crypto : PanelCrypto) (r : Issue) : Prop :=
  ∃ password twoFactor, r.proof = .password password twoFactor ∧
    r.username = r.config.adminUsername ∧
    crypto.compareHash r.config.adminPasswordHash password = true

def twoFactor (r : Issue) : Bool :=
  match r.proof with
  | .password _ twoFactor => twoFactor
  | .code .. => true

def CodeCorrect (crypto : PanelCrypto) (r : Issue) : Prop :=
  ∃ token code key state time, r.proof = .code token code key state time ∧
    CodeValid crypto code key state time

def ttl (r : Issue) : Int := if r.isSession then 24 * hour else challengeTTL

structure Earned (crypto : PanelCrypto) (r : Issue) (earlier : List Issue) :
    Prop where
  password : ∃ first ∈ earlier ++ [r], first.PasswordCorrect crypto ∧ first.username = r.username
  code : r.isSession = true → r.twoFactor = true → r.CodeCorrect crypto
  token : r.token = signToken crypto r.username r.config.sessionSecret r.ttl r.time

end Issue

def Vouched (crypto : PanelCrypto) (issues : List Issue) (username : Bytes) : Prop :=
  ∃ first ∈ issues, first.PasswordCorrect crypto ∧ first.username = username

def AllEarned (crypto : PanelCrypto) (issues : List Issue) : Prop :=
  ∀ earlier r later, issues = earlier ++ r :: later → r.Earned crypto earlier

theorem AllEarned.append {issue : Issue}
    (h : AllEarned crypto issues) (hissue : issue.Earned crypto issues) :
    AllEarned crypto (issues ++ [issue]) := by
  intro earlier r later heq
  rcases List.eq_nil_or_concat later with rfl | ⟨front, last, rfl⟩
  · obtain ⟨rfl, hr⟩ := List.append_inj' heq rfl
    cases hr
    exact hissue
  · rw [List.concat_eq_append, ← List.cons_append, ← List.append_assoc] at heq
    exact h earlier r front (List.append_inj' heq rfl).1

theorem AllEarned.of_mem (h : AllEarned crypto issues) {r : Issue} (hr : r ∈ issues) :
    ∃ earlier later, issues = earlier ++ r :: later ∧ r.Earned crypto earlier := by
  obtain ⟨earlier, later, heq⟩ := List.append_of_mem hr
  exact ⟨earlier, later, heq, h earlier r later heq⟩

theorem AllEarned.vouched (h : AllEarned crypto issues)
    {r : Issue} (hr : r ∈ issues) : Vouched crypto issues r.username := by
  obtain ⟨earlier, later, rfl, hearned⟩ := h.of_mem hr
  obtain ⟨first, hfirst, hcorrect, hname⟩ := hearned.password
  refine ⟨first, ?_, hcorrect, hname⟩
  simp only [List.mem_append, List.mem_cons, List.not_mem_nil, or_false] at hfirst ⊢
  rcases hfirst with hfirst | hfirst
  · exact .inl hfirst
  · exact .inr (.inl hfirst)

def Task.Backed (crypto : PanelCrypto) (issues : List Issue) : Task → Prop
  | .totpChallenged _ req _ _ => Vouched crypto issues req.username
  | .totpState _ req _ _ _ => Vouched crypto issues req.username
  | .totpBackup _ req _ key state time _ =>
    Vouched crypto issues req.username ∧ CodeValid crypto req.code key state time
  | .totpAccepted _ req key state time =>
    Vouched crypto issues req.username ∧ CodeValid crypto req.code key state time
  | _ => True

theorem Vouched.append {more : List Issue} {username : Bytes} (h : Vouched crypto issues username) :
    Vouched crypto (issues ++ more) username := by
  obtain ⟨first, hfirst, hrest⟩ := h
  exact ⟨first, List.mem_append_left _ hfirst, hrest⟩

theorem Task.Backed.append {more : List Issue} {task : Task}
    (h : task.Backed crypto issues) : task.Backed crypto (issues ++ more) := by
  cases task with
  | totpChallenged | totpState => exact Vouched.append h
  | totpBackup | totpAccepted => exact ⟨h.1.append, h.2⟩
  | _ => trivial

namespace App

variable {p p' : App} {task task' : Task} {env : StepEnv}

def Grows (crypto : PanelCrypto) (p p' : App) : Prop :=
  p'.history.issues = p.history.issues ∨ ∃ issue, p'.history.issues = p.history.issues ++ [issue] ∧
      issue.Earned crypto p.history.issues

theorem passwordCorrect_of_credentialsOK {cfg : Config} {req : LoginPayload} {issue : Issue}
    {twoFactor : Bool} (h : credentialsOK crypto cfg req = true) (hconfig : issue.config = cfg)
    (hname : issue.username = req.username)
    (hproof : issue.proof = .password req.password twoFactor) : issue.PasswordCorrect crypto := by
  subst hconfig
  simp only [credentialsOK, Bool.and_eq_true, beq_iff_eq] at h
  exact ⟨req.password, twoFactor, hproof, hname.trans h.1.2, h.2⟩

theorem codeValid_of_verdict {req : LoginPayload} {key : Bytes} {state : Persisted} {time : Int}
    (hsecret : crypto.openAESGCM key state.secret = some secret)
    (h : verdict crypto req secret state time ≠ .wrong) :
    CodeValid crypto req.code key state time := by
  refine ⟨secret, hsecret, ?_⟩
  unfold verdict at h
  split at h
  · rename_i hcode
    exact .inl hcode.2
  · split at h
    · rename_i idx hmatch
      exact .inr ⟨idx, hmatch⟩
    · exact absurd rfl h

/-- The panel has signed the payload of the text, if its signature is right. -/
def Known (crypto : PanelCrypto) (p : App) (secret text : Bytes) : Prop :=
  ∀ payload, Signed crypto secret text payload →
    ∃ r ∈ p.history.issues, r.config.sessionSecret = secret ∧ Signed crypto secret r.token payload

theorem Known.issue {payload username : Bytes} {now : Int} (h : p.Known crypto secret text)
    (hall : AllEarned crypto p.history.issues) (hsigned : Signed crypto secret text payload)
    (hunexpired : Unexpired payload username now) :
    ∃ r ∈ p.history.issues, r.username = username ∧
      Base64.decodeString r.token = Base64.decodeString text ∧
      unix now ≤ unix (r.time + r.ttl) := by
  obtain ⟨r, hr, rfl, htoken⟩ := h payload hsigned
  obtain ⟨earlier, later, -, hearned⟩ := hall.of_mem hr
  have hissued : Signed crypto r.config.sessionSecret r.token
      (tokenPayload r.username (unix (r.time + r.ttl))) := by
    rw [hearned.token]
    exact signed_signToken _ _ _ _
  obtain rfl := hissued.unique htoken
  obtain ⟨rfl, hle⟩ := hunexpired.tokenPayload
  exact ⟨r, hr, rfl, htoken.trans hsigned.symm, hle⟩

/-- A challenge token is accepted only if the panel has signed it. -/
def Unforged (crypto : PanelCrypto) (p : App) (event : PanelEvent) : Prop :=
  ∀ id env cfg req now, event = .step id env → p.tasks id = .totpUnlocked cfg req now →
    p.Known crypto cfg.sessionSecret (trimSpace req.challengeToken)

theorem Moves.grows (h : Moves crypto env p task p' task')
    (hall : AllEarned crypto p.history.issues) (hbacked : task.Backed crypto p.history.issues)
    (hknown : ∀ cfg req now, task = .totpUnlocked cfg req now →
      p.Known crypto cfg.sessionSecret (trimSpace req.challengeToken)) :
    Grows crypto p p' ∧ task'.Backed crypto p'.history.issues := by
  cases h with
  | challenge hok =>
    refine ⟨.inr ⟨_, rfl, ?_, ?_, rfl⟩, trivial⟩
    · exact ⟨_, by simp, passwordCorrect_of_credentialsOK hok rfl rfl rfl, rfl⟩
    · intro h
      cases h
  | session hok =>
    refine ⟨.inr ⟨_, rfl, ?_, ?_, rfl⟩, trivial⟩
    · exact ⟨_, by simp, passwordCorrect_of_credentialsOK hok rfl rfl rfl, rfl⟩
    · intro _ h
      cases h
  | @challenged cfg req now key hverify =>
    obtain ⟨payload, hsigned, hunexpired⟩ :=
      signed_of_verifyChallengeToken hverify
    obtain ⟨r, hr, hname, -, -⟩ :=
      (hknown cfg req now rfl).issue hall hsigned hunexpired
    refine ⟨.inl rfl, ?_⟩
    have hvouched := hall.vouched hr
    rwa [hname] at hvouched
  | readState => exact ⟨.inl rfl, hbacked⟩
  | totpCode hsecret hverdict =>
    exact ⟨.inl rfl, hbacked, codeValid_of_verdict hsecret (by simp [hverdict])⟩
  | backupCode hsecret hverdict =>
    exact ⟨.inl rfl, hbacked, codeValid_of_verdict hsecret (by simp [hverdict])⟩
  | removed => exact ⟨.inl rfl, hbacked⟩
  | accepted =>
    obtain ⟨⟨first, hfirst, hcorrect, hname⟩, hcode⟩ := hbacked
    refine ⟨.inr ⟨_, rfl, ?_, ?_, rfl⟩, trivial⟩
    · exact ⟨first, List.mem_append_left _ hfirst, hcorrect, hname⟩
    · exact fun _ _ => ⟨_, _, _, _, _, rfl, hcode⟩
  | _ => exact ⟨.inl rfl, trivial⟩

def soundIssues (crypto : PanelCrypto) : TaskInvariant crypto IsInitial (Unforged crypto) where
  inv v := AllEarned crypto v.history.issues
  ok v task := task.Backed crypto v.history.issues
  inv_init p hinit := by
    refine ⟨hinit, ?_⟩
    intro earlier r later heq
    obtain ⟨-, hissues, -⟩ := hinit
    simp [view, hissues] at heq
  ok_first v task hfirst := by
    cases task <;> trivial
  step p p' id env task' hguard hall hbacked hmoves := by
    obtain ⟨hgrows, htask⟩ := hmoves.grows hall hbacked
      (fun cfg req now => hguard id env cfg req now rfl)
    refine ⟨?_, htask, ?_⟩
    · rcases hgrows with hsame | ⟨issue, hissues, hearned⟩
      · exact hsame ▸ hall
      · exact hissues ▸ hall.append hearned
    · intro task hother
      rcases hgrows with hsame | ⟨issue, hissues, -⟩
      · exact hsame ▸ hother
      · exact hissues ▸ hother.append

theorem allEarned_of_reachable (h : (panelSystem crypto).ReachableBy (Unforged crypto) p) :
    AllEarned crypto p.history.issues :=
  ((soundIssues crypto).holds h).1

/--
A session cookie handed out after a request with the password of its user and,
where two-factor login was enabled, for a valid code.
-/
def Authenticated (crypto : PanelCrypto) (p : App) (cookie : Bytes) : Prop :=
  ∃ earlier r later, p.history.issues = earlier ++ r :: later ∧
    r.isSession = true ∧ r.token = cookie ∧
    (∃ first ∈ earlier ++ [r], first.PasswordCorrect crypto ∧ first.username = r.username) ∧
    (r.twoFactor = true → r.CodeCorrect crypto)

/--
If nobody can sign but the panel, a cookie value that does not decode to a
challenge token within its minute is accepted only if it decodes to an
authenticated session cookie; it is that cookie if the encoder can have
produced it.
-/
theorem session_requires_login {value : Bytes} {now : Int}
    (h : (panelSystem crypto).ReachableBy (Unforged crypto) p)
    (hknown : p.Known crypto p.config.sessionSecret value)
    (hchallenge : ∀ r ∈ p.history.issues, r.isSession = false →
      Base64.decodeString r.token = Base64.decodeString value →
      unix (r.time + challengeTTL) < unix now)
    (hvalid : validateSessionCookie crypto (some value) p.config.sessionSecret now = true) :
    ∃ cookie, Base64.decodeString cookie = Base64.decodeString value ∧
      (IsCanonical value → cookie = value) ∧ p.Authenticated crypto cookie := by
  have hall := allEarned_of_reachable h
  obtain ⟨payload, username, hsigned, hunexpired⟩ :=
    signed_of_validateSessionCookie hvalid
  obtain ⟨r, hr, -, hdecode, hle⟩ := hknown.issue hall hsigned hunexpired
  obtain ⟨earlier, later, hissues, hearned⟩ := hall.of_mem hr
  have hsession : r.isSession = true := by
    by_contra hnot
    have hfalse : r.isSession = false := by simpa using hnot
    have hlt := hchallenge r hr hfalse hdecode
    rw [Issue.ttl, hfalse] at hle
    exact absurd hle (Int.not_le.mpr hlt)
  refine ⟨r.token, hdecode, ?_, earlier, r, later, hissues, hsession, rfl,
    hearned.password, hearned.code hsession⟩
  intro hcanonical
  rw [hearned.token] at hdecode ⊢
  exact hcanonical.eq_signToken hdecode

def hasIssued (p : App) (secret text : Bytes) : Bool :=
  p.history.issues.any fun r =>
    r.config.sessionSecret == secret && r.token == text

theorem known_of_hasIssued (h : p.hasIssued secret text = true) : p.Known crypto secret text := by
  intro payload hsigned
  obtain ⟨r, hr, heq⟩ := List.any_eq_true.mp h
  simp only [Bool.and_eq_true, beq_iff_eq] at heq
  obtain ⟨rfl, rfl⟩ := heq
  exact ⟨r, hr, rfl, hsigned⟩

def checkUnforged (p : App) : PanelEvent → Bool
  | .step id _ =>
    match p.tasks id with
    | .totpUnlocked cfg req _ =>
      p.hasIssued cfg.sessionSecret (trimSpace req.challengeToken)
    | _ => true
  | _ => true

theorem unforged_of_check (p : App) (event : PanelEvent)
    (h : p.checkUnforged event = true) : p.Unforged crypto event := by
  rintro id env cfg req now rfl htask
  simp only [checkUnforged, htask] at h
  exact known_of_hasIssued h

def protectedPanel : App := panelWith { enabled := true, secret := [1] }

def firstChallenge : Bytes :=
  signChallengeToken plainCrypto [97] [99] challengeTTL 0

def firstCookie : Bytes := setSessionCookie plainCrypto [99] [97] 0

def fullLogin : List PanelEvent :=
  [PanelEvent.request 0 passwordRequest] ++ steps 0 1 ++
    [PanelEvent.request 1 (codeRequest firstChallenge (List.replicate 6 49))] ++
    steps 1 6

def acceptsCookie (p : App) : Bool :=
  p.config == adminConfig && p.hasIssued [99] firstCookie &&
    validateSessionCookie plainCrypto (some firstCookie) [99] 0 &&
    p.history.issues.all fun r => r.isSession ||
      Base64.decodeString r.token != Base64.decodeString firstCookie

theorem session_requires_login_protected :
    ∃ p, (panelSystem plainCrypto).ReachableBy (Unforged plainCrypto) p ∧ p.acceptsCookie = true ∧
      ∃ cookie, Base64.decodeString cookie = Base64.decodeString firstCookie ∧
        (IsCanonical firstCookie → cookie = firstCookie) ∧ p.Authenticated plainCrypto cookie := by
  obtain ⟨p, hreachable, hchecks⟩ : ∃ p,
      (panelSystem plainCrypto).ReachableBy (Unforged plainCrypto) p ∧ p.acceptsCookie = true :=
    System.exists_reachableBy unforged_of_check
      (show protectedPanel.IsInitial from isInitial_panelWith _) fullLogin (by decide +kernel)
  have hall := hchecks
  simp only [acceptsCookie, Bool.and_eq_true, beq_iff_eq, List.all_eq_true,
    Bool.or_eq_true, bne_iff_ne] at hall
  obtain ⟨⟨⟨hconfig, hissued⟩, hvalid⟩, hsessions⟩ := hall
  have hsecret : p.config.sessionSecret = [99] := by
    rw [hconfig]
    rfl
  rw [← hsecret] at hissued hvalid
  refine ⟨p, hreachable, hchecks,
    session_requires_login hreachable (known_of_hasIssued hissued) ?_ hvalid⟩
  intro r hr hfalse hdecode
  rcases hsessions r hr with htrue | hne
  · cases hfalse.symm.trans htrue
  · exact absurd hdecode hne

/--
After the password step the panel has handed out a challenge token and no
session cookie, and accepts the challenge token as one.
-/
theorem challenge_is_session : ∃ p, (panelSystem plainCrypto).ReachableBy (Unforged plainCrypto) p ∧
      (∀ r ∈ p.history.issues, r.isSession = false) ∧
      ∃ r ∈ p.history.issues, validateSessionCookie plainCrypto (some r.token)
        p.config.sessionSecret p.now = true := by
  exact System.exists_reachableBy unforged_of_check
    (show protectedPanel.IsInitial from isInitial_panelWith _)
    ([.request 0 passwordRequest] ++ steps 0 1) (by decide +kernel)

end App

end Mieru.Panel
