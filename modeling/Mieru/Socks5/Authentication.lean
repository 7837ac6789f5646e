import Mieru.Foundation.Bytes

/-!
# SOCKS5 authentication

`handleAuthentication` of `auth.go`.  A connection is the bytes the client
sends before it stops, and for each write whether it succeeds.  A user name and
a password are byte strings, as Go strings are.
-/

namespace Mieru.Socks5

open Mieru.Foundation

variable {what : String} {data : Bytes}

def socks5Version : UInt8 := 5
def socks5NoAuth : UInt8 := 0
def socks5UserPassAuth : UInt8 := 2
def socks5NoAcceptableAuth : UInt8 := 255
def socks5UserPassAuthVersion : UInt8 := 1
def socks5AuthSuccess : UInt8 := 0
def socks5AuthFailure : UInt8 := 1

structure Credential where
  user : Bytes
  password : Bytes
  deriving DecidableEq, Repr

structure Conn where
  input : Bytes
  /-- Whether the next writes succeed; later ones do. -/
  writable : List Bool := []
  output : Bytes := []
  deriving DecidableEq, Repr

abbrev Handshake (α : Type) : Type := Conn → Except String α × Conn

namespace Handshake

variable {α β : Type}

def bind (first : Handshake α) (next : α → Handshake β) : Handshake β :=
  fun conn =>
    match first conn with
    | (.ok value, conn) => next value conn
    | (.error err, conn) => (.error err, conn)

def fail (err : String) : Handshake α := fun conn => (.error err, conn)

/-- `io.ReadFull`; `what` is the text in front of its error. -/
def readFull (what : String) (n : Nat) : Handshake Bytes := fun conn =>
  if conn.input.length < n then
    (.error (what ++ (if conn.input = [] then " failed: EOF"
      else " failed: unexpected EOF")), { conn with input := [] })
  else
    (.ok (conn.input.take n), { conn with input := conn.input.drop n })

def readByte (what : String) : Handshake UInt8 :=
  (readFull what 1).bind fun data conn => (.ok (data.headD 0), conn)

def write (what : String) (data : Bytes) : Handshake Unit := fun conn =>
  match conn.writable with
  | false :: rest => (.error (what ++ " failed"), { conn with writable := rest })
  | answers =>
    (.ok (), { conn with
      writable := answers.tail
      output := conn.output ++ data })

/-! What a handshake that goes through has done. -/

variable {first : Handshake α} {next : α → Handshake β} {conn after : Conn}

theorem bind_eq_ok {value : β} (h : first.bind next conn = (.ok value, after)) :
    ∃ middle between, first conn = (.ok middle, between) ∧
      next middle between = (.ok value, after) := by
  unfold bind at h
  split at h
  · exact ⟨_, _, ‹_›, h⟩
  · cases h

theorem bind_of_ok {middle : α} {between : Conn} (h : first conn = (.ok middle, between)) :
    first.bind next conn = next middle between := by
  rw [bind, h]

theorem fail_ne_ok {err : String} {value : α} :
    (fail err : Handshake α) conn ≠ (.ok value, after) := by
  intro h
  cases h

theorem readFull_eq_ok {n : Nat} (h : readFull what n conn = (.ok data, after)) :
    data.length = n ∧ conn = { after with input := data ++ after.input } := by
  unfold readFull at h
  split at h
  · cases h
  · rename_i hlength
    cases h
    refine ⟨?_, ?_⟩
    · rw [List.length_take]
      omega
    · rw [List.take_append_drop]

theorem readFull_append {front back : Bytes} (h : conn.input = front ++ back) :
    readFull what front.length conn = (.ok front, { conn with input := back }) := by
  rw [readFull, if_neg (by rw [h, List.length_append]; omega), h, List.take_left, List.drop_left]

theorem readByte_eq_ok {byte : UInt8} (h : readByte what conn = (.ok byte, after)) :
    conn = { after with input := byte :: after.input } := by
  obtain ⟨data, between, hread, hbyte⟩ := bind_eq_ok h
  obtain ⟨hlength, rfl⟩ := readFull_eq_ok hread
  obtain ⟨only, rfl⟩ := List.length_eq_one_iff.mp hlength
  cases hbyte
  rfl

theorem readByte_cons {byte : UInt8} {rest : Bytes} (h : conn.input = byte :: rest) :
    readByte what conn = (.ok byte, { conn with input := rest }) := by
  have hfront : conn.input = [byte] ++ rest := h
  have hread : readFull what 1 conn =
      (.ok [byte], { conn with input := rest }) := readFull_append hfront
  rw [readByte, bind_of_ok hread]
  rfl

end Handshake

def Conn.CanWrite (conn : Conn) : Prop := conn.writable.head? ≠ some false

namespace Handshake

variable {conn after : Conn}

theorem write_eq_ok (h : write what data conn = (.ok (), after)) :
    conn.CanWrite ∧ after.input = conn.input := by
  unfold write at h
  split at h
  · cases h
  · rename_i hanswers
    cases h
    refine ⟨?_, rfl⟩
    intro hhead
    obtain ⟨rest, hrest⟩ := List.head?_eq_some_iff.mp hhead
    exact hanswers rest hrest

theorem write_of_canWrite (what : String) (data : Bytes) (h : conn.CanWrite) :
    ∃ after, write what data conn = (.ok (), after) := by
  unfold write
  split
  · rename_i rest hanswers
    exact absurd (by rw [hanswers]; rfl) h
  · exact ⟨_, rfl⟩

end Handshake

open Handshake

/-- The part of `handleAuthentication` that reads the offered methods. -/
def readAuthMethods : Handshake Bytes :=
  (readByte "get socks version").bind fun version =>
    if version ≠ socks5Version then
      fail s!"unsupported socks version: [{version}]"
    else
      (readByte "get number of authentication method").bind fun nAuthMethods =>
        if nAuthMethods = 0 then fail "number of authentication method is 0"
        else Handshake.readFull "get authentication method" nAuthMethods.toNat

def handleNoAuth (credentials : List Credential) (requestUserPassAuth : Bool) : Handshake Unit :=
  if !requestUserPassAuth && 0 < credentials.length then
    fail ("socks5 client requested no authentication, but user and password " ++
      "are required by socks5 server")
  else
    write "write authentication response (no authentication required)" [socks5Version, socks5NoAuth]

def readString (lengthText text : String) : Handshake Bytes :=
  (readByte lengthText).bind fun size => Handshake.readFull text size.toNat

def verifyUserPass (credentials : List Credential) (user password : Bytes) : Handshake Unit :=
  if credentials.any fun c => c.user == user && c.password == password then
    write "write user password authentication success response"
      [socks5UserPassAuthVersion, socks5AuthSuccess]
  else
    (write "write user password authentication failure response"
      [socks5UserPassAuthVersion, socks5AuthFailure]).bind fun _ =>
        fail "user password authentication failed: invalid user or password"

def handleUserPassAuth (credentials : List Credential) : Handshake Unit :=
  if credentials.length = 0 then
    fail "there is no registered socks5 server user"
  else
    (write "write user password authentication request"
      [socks5Version, socks5UserPassAuth]).bind fun _ =>
    (readByte "get user password authentication version").bind fun version =>
      if version ≠ socks5UserPassAuthVersion then
        fail (s!"user password authentication version {version} " ++
          "is not supported by socks5 server")
      else
        (readString "get user length" "read user").bind fun user =>
        (readString "get password length" "read password").bind fun password =>
          verifyUserPass credentials user password

def handleAuthentication (credentials : List Credential) : Handshake Unit :=
  readAuthMethods.bind fun authMethods =>
    let requestNoAuth := authMethods.contains socks5NoAuth
    let requestUserPassAuth := authMethods.contains socks5UserPassAuth
    if !requestNoAuth && !requestUserPassAuth then
      (write "write authentication response (no acceptable methods)"
        [socks5Version, socks5NoAcceptableAuth]).bind fun _ =>
          fail ("socks5 client provided authentication is not supported " ++ "by socks5 server")
    else if requestNoAuth then handleNoAuth credentials requestUserPassAuth
    else handleUserPassAuth credentials

def Offers (input methods rest : Bytes) : Prop :=
  ∃ nAuthMethods : UInt8, nAuthMethods ≠ 0 ∧ methods.length = nAuthMethods.toNat ∧
    input = socks5Version :: nAuthMethods :: (methods ++ rest)

def SendsLogin (input user password : Bytes) : Prop :=
  ∃ (userLength passwordLength : UInt8) (rest : Bytes), user.length = userLength.toNat ∧
    password.length = passwordLength.toNat ∧
    input = socks5UserPassAuthVersion :: userLength ::
      (user ++ passwordLength :: (password ++ rest))

/-- The client has sent the user name and password of a credential. -/
def Authenticates (credentials : List Credential) (input : Bytes) : Prop :=
  ∃ methods rest, Offers input methods rest ∧ ∃ c ∈ credentials, SendsLogin rest c.user c.password

/-- The client offers to go without authentication and to authenticate. -/
def OffersBoth (input : Bytes) : Prop :=
  ∃ methods rest, Offers input methods rest ∧ socks5NoAuth ∈ methods ∧ socks5UserPassAuth ∈ methods

section

variable {credentials : List Credential} {conn after : Conn}

theorem readAuthMethods_eq_ok {methods : Bytes} (h : readAuthMethods conn = (.ok methods, after)) :
    Offers conn.input methods after.input ∧ after.writable = conn.writable := by
  obtain ⟨version, atCount, hversion, hsecond⟩ := bind_eq_ok h
  obtain rfl := readByte_eq_ok hversion
  split at hsecond
  · cases hsecond
  rename_i hsupported
  obtain ⟨count, atMethods, hcount, hthird⟩ := bind_eq_ok hsecond
  obtain rfl := readByte_eq_ok hcount
  split at hthird
  · cases hthird
  rename_i hpositive
  obtain ⟨hlength, rfl⟩ := Handshake.readFull_eq_ok hthird
  refine ⟨⟨count, hpositive, hlength, ?_⟩, rfl⟩
  rw [not_not.mp hsupported]

theorem readAuthMethods_of_offers {methods rest : Bytes} (h : Offers conn.input methods rest) :
    readAuthMethods conn = (.ok methods, { conn with input := rest }) := by
  obtain ⟨count, hpositive, hlength, hinput⟩ := h
  rw [readAuthMethods, bind_of_ok (readByte_cons hinput), if_neg (by simp),
    bind_of_ok (readByte_cons rfl), if_neg hpositive, ← hlength]
  exact Handshake.readFull_append rfl

theorem readString_eq_ok {lengthText text : String}
    (h : readString lengthText text conn = (.ok data, after)) :
    ∃ size : UInt8, data.length = size.toNat ∧
      conn = { after with input := size :: (data ++ after.input) } := by
  obtain ⟨size, between, hsize, hdata⟩ := bind_eq_ok h
  obtain rfl := readByte_eq_ok hsize
  obtain ⟨hlength, rfl⟩ := Handshake.readFull_eq_ok hdata
  exact ⟨size, hlength, rfl⟩

theorem verifyUserPass_eq_ok {user password : Bytes}
    (h : verifyUserPass credentials user password conn = (.ok (), after)) :
    ∃ c ∈ credentials, c.user = user ∧ c.password = password := by
  unfold verifyUserPass at h
  split at h
  · rename_i hfound
    simpa using hfound
  · obtain ⟨_, between, -, hfail⟩ := bind_eq_ok h
    exact absurd hfail fail_ne_ok

theorem handleUserPassAuth_eq_ok (h : handleUserPassAuth credentials conn = (.ok (), after)) :
    ∃ c ∈ credentials, SendsLogin conn.input c.user c.password := by
  unfold handleUserPassAuth at h
  split at h
  · exact absurd h fail_ne_ok
  obtain ⟨_, atVersion, hrequest, hlogin⟩ := bind_eq_ok h
  obtain ⟨-, hinput⟩ := write_eq_ok hrequest
  obtain ⟨version, atUser, hversion, hnames⟩ := bind_eq_ok hlogin
  obtain rfl := readByte_eq_ok hversion
  split at hnames
  · exact absurd hnames fail_ne_ok
  rename_i hsupported
  obtain ⟨user, atPassword, huser, hsecret⟩ := bind_eq_ok hnames
  obtain ⟨userLength, huserLength, rfl⟩ := readString_eq_ok huser
  obtain ⟨password, atEnd, hpassword, hverify⟩ := bind_eq_ok hsecret
  obtain ⟨passwordLength, hpasswordLength, rfl⟩ := readString_eq_ok hpassword
  obtain ⟨c, hc, rfl, rfl⟩ := verifyUserPass_eq_ok hverify
  refine ⟨c, hc, userLength, passwordLength, atEnd.input, huserLength, hpasswordLength, ?_⟩
  rw [← hinput, not_not.mp hsupported]

theorem handleNoAuth_eq_ok {requestUserPassAuth : Bool} (hcredentials : credentials ≠ [])
    (h : handleNoAuth credentials requestUserPassAuth conn = (.ok (), after)) :
    requestUserPassAuth = true ∧ conn.CanWrite := by
  unfold handleNoAuth at h
  split at h
  · exact absurd h fail_ne_ok
  · rename_i hallowed
    refine ⟨?_, (write_eq_ok h).1⟩
    have hsome := List.length_pos_iff.mpr hcredentials
    cases requestUserPassAuth with
    | true => rfl
    | false => simp [hsome] at hallowed

end

/--
With credentials configured, a client that is let in has sent one of them,
unless it offers both methods: then it is let in without authentication.
-/
theorem handleAuthentication_sound_iff (credentials : List Credential)
    (hcredentials : credentials ≠ []) (conn : Conn) :
    ((handleAuthentication credentials conn).1 = .ok () → Authenticates credentials conn.input) ↔
      (¬ (OffersBoth conn.input ∧ conn.CanWrite) ∨ Authenticates credentials conn.input) := by
  constructor
  · intro hsound
    by_cases hbypass : OffersBoth conn.input ∧ conn.CanWrite
    · obtain ⟨⟨methods, rest, hoffers, hnone, huser⟩, hwrite⟩ := hbypass
      have hwrite : { conn with input := rest }.CanWrite := hwrite
      obtain ⟨after, hreply⟩ := write_of_canWrite
        "write authentication response (no authentication required)"
        [socks5Version, socks5NoAuth] hwrite
      refine .inr (hsound ?_)
      have hcontains : methods.contains socks5NoAuth = true := by simpa using hnone
      have hcontains' : methods.contains socks5UserPassAuth = true := by
        simpa using huser
      rw [handleAuthentication, bind_of_ok (readAuthMethods_of_offers hoffers)]
      simp only [hcontains, hcontains', handleNoAuth, Bool.not_true,
        Bool.false_and, Bool.false_eq_true, if_false, if_true, hreply]
    · exact .inl hbypass
  · intro hcondition haccepted
    rcases hcondition with hnot | hsent
    · rcases hresult : handleAuthentication credentials conn with ⟨result, after⟩
      rw [hresult] at haccepted
      cases haccepted
      obtain ⟨methods, between, hmethods, hresult⟩ := bind_eq_ok hresult
      obtain ⟨hoffers, hwritable⟩ := readAuthMethods_eq_ok hmethods
      dsimp only at hresult
      split at hresult
      · obtain ⟨_, _, -, hfail⟩ := bind_eq_ok hresult
        exact absurd hfail fail_ne_ok
      split at hresult
      · rename_i hnone
        obtain ⟨huser, hwrite⟩ := handleNoAuth_eq_ok hcredentials hresult
        refine absurd ⟨⟨methods, between.input, hoffers, ?_, ?_⟩, ?_⟩ hnot
        · simpa using hnone
        · simpa using huser
        · rwa [Conn.CanWrite, hwritable] at hwrite
      · exact ⟨methods, between.input, hoffers, handleUserPassAuth_eq_ok hresult⟩
    · exact hsent

def bypassingConn : Conn := { input := [5, 2, 0, 2] }

def aliceCredential : Credential := ⟨[97, 108, 105, 99, 101], [112, 119]⟩

def loginConn : Conn where
  input := [5, 1, 2, 1, 5, 97, 108, 105, 99, 101, 2, 112, 119]

theorem handleAuthentication_sound_iff_loginConn : [aliceCredential] ≠ [] ∧
      (handleAuthentication [aliceCredential] loginConn).1 = .ok () ∧
      Authenticates [aliceCredential] loginConn.input := by
  have hnot : ¬ (OffersBoth loginConn.input ∧ loginConn.CanWrite) := by
    rintro ⟨⟨methods, rest, ⟨count, -, hlength, hinput⟩, hnone, -⟩, -⟩
    simp only [loginConn, List.cons.injEq] at hinput
    obtain ⟨-, hcount, hmethods⟩ := hinput
    rw [← hcount] at hlength
    obtain ⟨method, rfl⟩ := List.length_eq_one_iff.mp hlength
    obtain rfl := List.mem_singleton.mp hnone
    cases hmethods
  exact ⟨by decide, by decide, (handleAuthentication_sound_iff
    [aliceCredential] (by decide) loginConn).mpr (.inl hnot) (by decide)⟩

theorem handleAuthentication_bypassed :
    (handleAuthentication [aliceCredential] bypassingConn).1 = .ok () ∧
      ¬ Authenticates [aliceCredential] bypassingConn.input := by
  refine ⟨by decide, ?_⟩
  rintro ⟨methods, rest, ⟨count, -, hlength, hinput⟩, c, -, huserLength,
    passwordLength, tail, -, -, hlogin⟩
  simp only [bypassingConn, List.cons.injEq] at hinput
  obtain ⟨-, hcount, hmethods⟩ := hinput
  rw [← hcount] at hlength
  have htotal := congrArg List.length hmethods
  have hrest := congrArg List.length hlogin
  simp at htotal hrest hlength
  omega

end Mieru.Socks5
