import Mieru.Panel.Steps

/-!
# Throttled logins

A login with a wrong password takes a token from the bucket of its address and
is answered differently when there is none.  The password is looked at before
the bucket, and a right one never asks it.
-/

namespace Mieru.Panel

open Mieru.Foundation

def tooManyAttempts : Reply :=
  errorReply 429 "too many attempts, try again later"

def Request.withPassword (r : Request) (payload : LoginPayload) (password : Bytes) : Request :=
  { r with call := .login (some { payload with password := password }) }

/-- `HandleLogin` takes the payload as credentials, not as a second step. -/
def LoginPayload.IsAttempt (payload : LoginPayload) : Prop :=
  ¬(trimSpace payload.code ≠ [] ∧ trimSpace payload.challengeToken ≠ [])

instance (payload : LoginPayload) : Decidable payload.IsAttempt :=
  inferInstanceAs (Decidable (¬(_ ∧ _)))

namespace App

variable {crypto : PanelCrypto} {p : App} {answers : FileAnswers}
  {r : Request} {payload : LoginPayload} {good bad : Bytes}

def passwordReply (crypto : PanelCrypto) (p : App) (answers : FileAnswers)
    (r : Request) : Option Reply :=
  match p.start r with
  | .password cfg ip req =>
    some (p.checkPassword crypto answers cfg ip req).2
  | _ => none

/-- The bucket of the address holds less than one token. -/
def Throttled (p : App) (ip : Bytes) : Prop :=
  ∃ l, p.loginLimiter = some l ∧ (l.refilled ip p.now).tokens < 1

theorem refuse_of_throttled {ip : Bytes} (h : p.Throttled ip) :
    (p.refuse ip).2 = tooManyAttempts := by
  obtain ⟨l, hlimiter, htokens⟩ := h
  have hallow : (l.allow ip p.now).2 = false := by
    simp [Limiter.allow, htokens]
  unfold refuse allow
  rw [hlimiter]
  rcases hresult : l.allow ip p.now with ⟨after, allowed⟩
  rw [hresult] at hallow
  subst hallow
  simp only [hresult]
  rfl

def attempt (payload : LoginPayload) (password : Bytes) : LoginPayload :=
  { payload with
    username := trimSpace payload.username
    password := password }

theorem passwordReply_eq (hpost : r.isPost = true) (h : payload.IsAttempt) (password : Bytes) :
    p.passwordReply crypto answers (r.withPassword payload password) =
      some (p.checkPassword crypto answers p.config (clientIP r) (attempt payload password)).2 := by
  unfold passwordReply start Request.withPassword
  simp only [hpost, Bool.true_eq_false, if_false]
  rw [if_neg h]
  rfl

theorem checkPassword_of_throttled {cfg : Config} {ip : Bytes} {req : LoginPayload}
    (hthrottled : p.Throttled ip) (h : credentialsOK crypto cfg req = false) :
    (p.checkPassword crypto answers cfg ip req).2 = tooManyAttempts := by
  unfold checkPassword
  rw [if_pos h]
  exact refuse_of_throttled hthrottled

theorem checkPassword_ne {cfg : Config} {ip : Bytes} {req : LoginPayload}
    (h : credentialsOK crypto cfg req = true) :
    (p.checkPassword crypto answers cfg ip req).2 ≠ tooManyAttempts := by
  unfold checkPassword
  rw [if_neg (by simp [h])]
  intro heq
  have hstatus := congrArg Reply.status heq
  split at hstatus <;> cases hstatus

/--
With an empty bucket every wrong password is answered in the same way; the
right password is answered so exactly if the user name is not the
administrator's.
-/
theorem throttled_reply_iff (hpost : r.isPost = true) (hattempt : payload.IsAttempt)
    (hthrottled : p.Throttled (clientIP r))
    (hgood : crypto.compareHash p.config.adminPasswordHash good = true) (hpassword : good ≠ [])
    (hbad : crypto.compareHash p.config.adminPasswordHash bad = false) :
    p.passwordReply crypto answers (r.withPassword payload bad) = some tooManyAttempts ∧
      (p.passwordReply crypto answers (r.withPassword payload good) =
          p.passwordReply crypto answers (r.withPassword payload bad) ↔
        trimSpace payload.username = [] ∨ trimSpace payload.username ≠ p.config.adminUsername) := by
  have hwrong : p.passwordReply crypto answers (r.withPassword payload bad) =
      some tooManyAttempts := by
    rw [passwordReply_eq hpost hattempt]
    refine congrArg some (checkPassword_of_throttled hthrottled ?_)
    simp [credentialsOK, attempt, hbad]
  refine ⟨hwrong, ?_⟩
  rw [hwrong, passwordReply_eq hpost hattempt, Option.some.injEq]
  constructor
  · intro heq
    by_contra hnot
    rw [not_or, not_not] at hnot
    obtain ⟨hname, hadmin⟩ := hnot
    rw [hadmin] at hname
    refine checkPassword_ne ?_ heq
    simp [credentialsOK, attempt, hname, hadmin, hgood, hpassword]
  · intro hname
    refine checkPassword_of_throttled hthrottled ?_
    rcases hname with hempty | hother
    · simp [credentialsOK, attempt, hempty]
    · simp [credentialsOK, attempt, hother]

def limitedPanel : App where
  config := adminConfig
  loginLimiter := some (Limiter.new 5 (1 / 12) (5 * minute))

theorem isInitial_limitedPanel : limitedPanel.IsInitial :=
  ⟨rfl, rfl, rfl, rfl, rfl, rfl, rfl⟩

def wrongRequest : Request := passwordRequest.withPassword { username := [97] } [0]

def fiveFailures : List PanelEvent :=
  (List.range 5).flatMap fun id => [PanelEvent.request id wrongRequest] ++ steps id 1

def answersNow (p : App) : Option ℚ × Option Reply × Option Reply :=
  (p.loginLimiter.map fun l => (l.refilled (clientIP passwordRequest) p.now).tokens,
    p.passwordReply plainCrypto {} (passwordRequest.withPassword { username := [97] } [0]),
    p.passwordReply plainCrypto {} (passwordRequest.withPassword { username := [97] } [98]))

theorem throttled_reply_iff_other : limitedPanel.config.adminUsername ≠ [99] ∧
      ∃ p, (panelSystem plainCrypto).Reachable p ∧ p.Throttled (clientIP passwordRequest) ∧
        p.passwordReply plainCrypto {} (passwordRequest.withPassword { username := [99] } [98]) =
          p.passwordReply plainCrypto {}
            (passwordRequest.withPassword { username := [99] } [0]) := by
  obtain ⟨p, hreachable, hconfig, hlimiter⟩ : ∃ p, (panelSystem plainCrypto).Reachable p ∧
      p.config = adminConfig ∧ (p.loginLimiter.map fun l => decide
        ((l.refilled (clientIP passwordRequest) p.now).tokens < 1)) = some true :=
    System.exists_reachable isInitial_limitedPanel fiveFailures (by decide +kernel)
  obtain ⟨l, hl, htokens⟩ := Option.map_eq_some_iff.mp hlimiter
  have hthrottled : p.Throttled (clientIP passwordRequest) :=
    ⟨l, hl, of_decide_eq_true htokens⟩
  refine ⟨by decide, p, hreachable, hthrottled, ?_⟩
  refine (throttled_reply_iff rfl (by decide) hthrottled ?_ (by decide) ?_).2.mpr (.inr ?_)
  · rw [hconfig]
    rfl
  · rw [hconfig]
    rfl
  · rw [hconfig]
    decide

/-- After five failures the answers still tell a right password from a wrong one. -/
theorem throttled_reply_differs : ∃ p, (panelSystem plainCrypto).Reachable p ∧ p.answersNow =
      (some 0, some tooManyAttempts, some { okReply with
          cookie := some (setSessionCookie plainCrypto [99] [97] 0) }) := by
  exact System.exists_reachable isInitial_limitedPanel fiveFailures (by decide +kernel)

end App

end Mieru.Panel
