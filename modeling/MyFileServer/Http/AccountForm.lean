import MyFileServer.Http.UserAccounts

/-!
# The form of an account

The two routes for accounts cut a name and a password out of the body of the
request, with loops that know where a form has its fields.  `FormFits` says
for which bodies the loops stop inside the body and the arrays, and a body
that is written as a form gives back what was written.
-/

namespace MyFileServer

open Execution CallLog

theorem copyUntil_eq_ok {stop : UInt8} {copied rest result : Bytes} :
    copyUntil stop copied rest = .ok result ↔
      result = copied ++ rest.takeWhile (· ≠ stop) ∧ result.length < 100 ∧
        (stop = 0 ∨ stop ∈ rest) := by
  induction rest generalizing copied with
  | nil =>
      unfold copyUntil
      refine ite_eq_ok.trans ?_
      rw [List.takeWhile_nil, List.append_nil]
      constructor
      · intro h
        obtain ⟨⟨hstop, hroom⟩, rfl⟩ := h
        exact ⟨rfl, hroom, .inl hstop⟩
      · intro h
        obtain ⟨rfl, hroom, hstop⟩ := h
        exact ⟨⟨hstop.resolve_right List.not_mem_nil, hroom⟩, rfl⟩
  | cons c rest ih =>
      unfold copyUntil
      by_cases hroom : copied.length < 100
      · rw [if_pos hroom]
        by_cases hc : c = stop
        · rw [if_pos hc, List.takeWhile_cons_of_neg (by simpa using hc), List.append_nil]
          constructor
          · intro h
            obtain rfl := Except.ok.inj h
            exact ⟨rfl, hroom, .inr (hc ▸ List.mem_cons_self)⟩
          · intro h
            exact congrArg _ h.1.symm
        · rw [if_neg hc, ih, List.takeWhile_cons_of_pos (by simpa using hc),
            List.append_assoc, List.mem_cons, or_iff_right (Ne.symm hc)]
          rfl
      · rw [if_neg hroom]
        constructor
        · intro h
          cases h
        · intro h
          obtain ⟨rfl, hshort, _⟩ := h
          rw [List.length_append] at hshort
          omega

theorem copyField_eq_ok {stop : UInt8} {m_string result : Bytes} {i : ℕ} :
    copyField stop m_string i = .ok result ↔
      i ≤ m_string.length ∧ result = (m_string.drop i).takeWhile (· ≠ stop) ∧
        result.length < 100 ∧ (stop = 0 ∨ stop ∈ m_string.drop i) := by
  unfold copyField
  split
  next hi => rw [copyUntil_eq_ok, List.nil_append, and_iff_right hi]
  next hi => exact iff_of_false (fun h => nomatch h) fun h => hi h.1

/-! ## The fields of a body -/

/-- From the byte 5 up to the next `&`. -/
def nameField (m_string : Bytes) : Bytes :=
  (m_string.drop 5).takeWhile (· ≠ chr '&')

/-- From ten bytes behind that `&` up to a NUL or the end. -/
def passwordField (m_string : Bytes) : Bytes :=
  (m_string.drop (5 + (nameField m_string).length + 10)).takeWhile (· ≠ 0)

structure FormFits (m_string : Bytes) : Prop where
  delimiter : chr '&' ∈ m_string.drop 5
  name : (nameField m_string).length ≤ 99
  start : 5 + (nameField m_string).length + 10 ≤ m_string.length
  password : (passwordField m_string).length ≤ 99

theorem accountForm_eq_ok {m_string : Bytes} {form : Bytes × Bytes} :
    accountForm m_string = .ok form ↔
      FormFits m_string ∧
        form = (cstr (nameField m_string), passwordField m_string) := by
  unfold accountForm
  constructor
  · intro h
    obtain ⟨name, hname, hrest⟩ := bind_eq_ok.mp h
    obtain ⟨_, rfl, hshort, hfound⟩ := copyField_eq_ok.mp hname
    obtain ⟨password, hpassword, hform⟩ := bind_eq_ok.mp hrest
    obtain ⟨hstart, rfl, hlong, _⟩ := copyField_eq_ok.mp hpassword
    exact ⟨⟨hfound.resolve_left (by decide), Nat.le_of_lt_succ hshort, hstart,
      Nat.le_of_lt_succ hlong⟩, (Except.ok.inj hform).symm⟩
  · intro h
    obtain ⟨hfits, rfl⟩ := h
    have hstart := hfits.start
    have hname : copyField (chr '&') m_string 5 = .ok (nameField m_string) :=
      copyField_eq_ok.mpr ⟨by omega, rfl, Nat.lt_succ_of_le hfits.name,
        .inr hfits.delimiter⟩
    have hpassword :
        copyField 0 m_string (5 + (nameField m_string).length + 10) =
          .ok (passwordField m_string) :=
      copyField_eq_ok.mpr ⟨hstart, rfl, Nat.lt_succ_of_le hfits.password, .inl rfl⟩
    rw [hname]
    refine bind_eq_ok.mpr ⟨_, rfl, ?_⟩
    rw [hpassword]
    rfl

theorem accountForm_returns_iff {m_string : Bytes} :
    Returns (accountForm m_string) ↔ FormFits m_string := by
  unfold Returns
  simp only [accountForm_eq_ok, exists_and_left, exists_eq, and_true]

/-- The fixed words of the statement take 48 bytes, and a NUL ends it. -/
theorem sqlInsert_returns_iff {name password : Bytes} :
    Returns (sqlInsert name password) ↔ name.length + password.length ≤ 151 := by
  have hwords : (ascii "INSERT INTO login(user, password) VALUES(" ++ ascii "'" ++
      name ++ ascii "', '" ++ password ++ ascii "')").length =
        name.length + password.length + 48 := by
    simp only [List.length_append]
    have hfirst : (ascii "INSERT INTO login(user, password) VALUES(").length = 41 := rfl
    have hquote : (ascii "'").length = 1 := rfl
    have hcomma : (ascii "', '").length = 4 := rfl
    have hlast : (ascii "')").length = 2 := rfl
    omega
  unfold sqlInsert
  simp only [hwords]
  split
  next hfits => exact iff_of_true (returns_pure _) (by omega)
  next hlong => exact iff_of_false (not_returns_error _) (by omega)

/-! ## A body that is a form -/

def encodeForm (name password : Bytes) : Bytes :=
  ascii "user=" ++ name ++ ascii "&password=" ++ password

section Encoded

variable {name password : Bytes} (hdelimiter : chr '&' ∉ name) (hpassword : 0 ∉ password)

include hdelimiter

theorem nameField_encodeForm : nameField (encodeForm name password) = name := by
  have hdrop : (encodeForm name password).drop 5 =
      name ++ chr '&' :: (ascii "password=" ++ password) := by
    unfold encodeForm
    simp [ascii]
  unfold nameField
  rw [hdrop]
  exact takeWhile_ne_cons hdelimiter _

include hpassword

theorem passwordField_encodeForm :
    passwordField (encodeForm name password) = password := by
  have hdrop : (encodeForm name password).drop (5 + name.length + 10) = password := by
    unfold encodeForm
    apply List.drop_left'
    simp [ascii]
    omega
  unfold passwordField
  rw [nameField_encodeForm hdelimiter, hdrop]
  exact cstr_of_notMem hpassword

theorem formFits_encodeForm (hname : name.length ≤ 99) (hlong : password.length ≤ 99) :
    FormFits (encodeForm name password) where
  delimiter := by
    unfold encodeForm
    simp [ascii]
  name := by
    rw [nameField_encodeForm hdelimiter]
    exact hname
  start := by
    rw [nameField_encodeForm hdelimiter]
    unfold encodeForm
    simp [ascii]
    omega
  password := by
    rw [passwordField_encodeForm hdelimiter hpassword]
    exact hlong

end Encoded

theorem accountForm_encodeForm {name password : Bytes} (hdelimiter : chr '&' ∉ name)
    (hnul : 0 ∉ name) (hpassword : 0 ∉ password) (hname : name.length ≤ 99)
    (hlong : password.length ≤ 99) :
    accountForm (encodeForm name password) = .ok (name, password) := by
  refine accountForm_eq_ok.mpr ⟨formFits_encodeForm hdelimiter hpassword hname hlong, ?_⟩
  rw [nameField_encodeForm hdelimiter, passwordField_encodeForm hdelimiter hpassword,
    cstr_of_notMem hnul]

theorem Users.lookup_add_of_notMem {users : Users} {name : Bytes} (hname : name ∉ users)
    (password : Bytes) : (users.add name password).lookup name = some password := by
  unfold Users.add
  rw [if_neg hname]
  exact Finmap.lookup_insert users

/-- The answer to a login that is granted lists the work path. -/
def grantedLogin (env : Environment) (server : FileServer) (res : HttpResponse) :
    Sys (FileServer × HttpResponse) := do
  let html ← getRootListPage env server.workPath_
  return (server, sendHtml .k200Ok html res)

def refusedLogin (server : FileServer) (res : HttpResponse) :
    Sys (FileServer × HttpResponse) :=
  pure (server, sendHtml .k200Ok wrongPasswordPage res)

theorem grantedLogin_ne_refusedLogin (env : Environment) (server : FileServer)
    (res : HttpResponse) : grantedLogin env server res ≠ refusedLogin server res := by
  intro h
  have hquiet : (grantedLogin env server res []).calls = [] := by
    rw [h]
    rfl
  unfold grantedLogin getRootListPage fileListPage getFileVec Environment.opendir at hquiet
  rw [bind_assoc, bind_assoc, perform_bind] at hquiet
  cases hquiet

theorem loginAnswer_eq (env : Environment) (server : FileServer) (name password : Bytes)
    (res : HttpResponse) :
    (do return (server, ← login env server name password res)) =
      if server.users.lookup name = some password then grantedLogin env server res
      else refusedLogin server res := by
  unfold login grantedLogin refusedLogin
  split
  · rw [bind_assoc]
    rfl
  · rfl

/-- Both routes work on what the form was made from, a login is granted for the
password of the user, and a new user can log in with the form that registered
it. -/
theorem account_routes_of_encodeForm {name password : Bytes}
    (hdelimiter : chr '&' ∉ name) (hnul : 0 ∉ name) (hpassword : 0 ∉ password)
    (hname : name.length ≤ 99) (hlong : password.length ≤ 99)
    (env : Environment) (server : FileServer) {req : HttpRequest}
    (hbody : req.m_string = encodeForm name password) (path : Bytes)
    (res : HttpResponse) :
    takeRoute env server req path res .register =
        register env server name password res ∧
      takeRoute env server req path res .login =
        (do return (server, ← login env server name password res)) ∧
      (takeRoute env server req path res .login = grantedLogin env server res ↔
        server.users.lookup name = some password) ∧
      (takeRoute env server req path res .login = refusedLogin server res ↔
        server.users.lookup name ≠ some password) ∧
      ∀ before built,
        (takeRoute env server req path res .register before).result = .ok built →
          name ∉ server.users → built.1.users.lookup name = some password := by
  have hform := accountForm_encodeForm hdelimiter hnul hpassword hname hlong
  have hregister : takeRoute env server req path res .register =
      register env server name password res := by
    unfold takeRoute
    rw [hbody, hform]
    exact pure_bind (name, password) _
  have hlogin : takeRoute env server req path res .login =
      (do return (server, ← login env server name password res)) := by
    unfold takeRoute
    rw [hbody, hform]
    exact pure_bind (name, password) _
  have hother := grantedLogin_ne_refusedLogin env server res
  refine ⟨hregister, hlogin, ?_, ?_, ?_⟩
  · rw [hlogin, loginAnswer_eq]
    split
    next hknown => exact iff_of_true rfl hknown
    next hwrong => exact iff_of_false hother.symm hwrong
  · rw [hlogin, loginAnswer_eq]
    split
    next hknown => exact iff_of_false hother (not_not.mpr hknown)
    next hwrong => exact iff_of_true rfl hwrong
  · intro before built hbuilt hnew
    rw [hregister] at hbuilt
    rw [register_result hbuilt]
    exact Users.lookup_add_of_notMem hnew password

def annServer : FileServer where
  workPath_ := ascii "."
  users := Users.add ∅ (ascii "ann") (ascii "a&b=c")

/-- A password with the signs of a form. -/
theorem account_routes_of_encodeForm_signs :
    let req : HttpRequest := { m_string := ascii "user=ann&password=a&b=c" }
    takeRoute {} { workPath_ := ascii "." } req (ascii "./3") { closeConnection_ := false }
        .register =
      register {} { workPath_ := ascii "." } (ascii "ann") (ascii "a&b=c")
        { closeConnection_ := false } ∧
    takeRoute {} annServer req (ascii "./2") { closeConnection_ := false } .login =
      grantedLogin {} annServer { closeConnection_ := false } := by
  have hroutes (server : FileServer) (path : Bytes) :=
    @account_routes_of_encodeForm (ascii "ann") (ascii "a&b=c") (by decide) (by decide)
      (by decide) (by decide) (by decide) {} server
      { m_string := ascii "user=ann&password=a&b=c" } rfl path
      { closeConnection_ := false }
  obtain ⟨_, _, hgranted, _⟩ := hroutes annServer (ascii "./2")
  refine ⟨(hroutes { workPath_ := ascii "." } (ascii "./3")).1, hgranted.mpr ?_⟩
  exact Users.lookup_add_of_notMem (Finmap.notMem_empty) _

end MyFileServer
