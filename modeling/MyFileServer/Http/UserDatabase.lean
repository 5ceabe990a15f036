import MyFileServer.Http.RegistrationSql

/-!
# The users in memory and in the database

A request to register adds its form to `users` whatever the database says, and
only if the name is new there, while the table gains a row exactly when the
INSERT succeeds, and the row that the literals of the statement decode to.  The
two therefore agree after a request under a condition on the users before it
and the answer of the database.
-/

namespace MyFileServer

open Execution CallLog SqlText

/-- The row that an INSERT appends when it succeeds.  Nothing is said about a
text that is not a single INSERT of two values. -/
structure Database where
  row : List SysCall → Bytes → Bytes × Bytes
  decodes : ∀ before sql name password, InsertsAccount sql name password →
    row before sql = (name, password)

namespace Database

/-- The two literals behind the words of the statement. -/
def literals (sql : Bytes) : Bytes × Bytes :=
  match (tokens sql).map fun list => (joinLiterals list).drop insertHead.length with
  | some (.literal name :: _ :: .literal password :: _) => (name, password)
  | _ => ([], [])

theorem literals_of_insertsAccount {sql name password : Bytes}
    (hinserts : InsertsAccount sql name password) : literals sql = (name, password) := by
  obtain ⟨list, close, htokens, _, hjoin⟩ := hinserts
  unfold literals
  rw [htokens, Option.map_some, hjoin, List.drop_left' rfl]
  rfl

def ofLiterals : Database where
  row := fun _ => literals
  decodes := fun _ _ _ _ => literals_of_insertsAccount

end Database

structure Accounts where
  server : FileServer
  table : LoginTable
  log : List SysCall

namespace Accounts

def load (workPath_ : Bytes) (table : LoginTable) (log : List SysCall) : Accounts where
  server := { workPath_, users := sqlPool table }
  table := table
  log := log

/-- A request to register, and the row that its INSERT appends. -/
def serve (db : Database) (env : Environment) (accounts : Accounts) (req : HttpRequest) :
    Exec (Accounts × HttpResponse) := do
  let form ← accountForm req.m_string
  let sql ← sqlInsert form.1 form.2
  let path := accounts.server.workPath_ ++ req.path_
  let outcome := takeRoute env accounts.server req path
    { closeConnection_ := req.wantsClose } .register accounts.log
  let (server, res) ← outcome.result
  let table :=
    if env.inserts accounts.log sql then accounts.table ++ [db.row accounts.log sql]
    else accounts.table
  return ({ server, table, log := accounts.log ++ outcome.calls }, res)

/-- The users are those that `sql_pool` would load now, so no login is granted
that the table does not hold. -/
structure Agrees (accounts : Accounts) : Prop where
  users : accounts.server.users = sqlPool accounts.table
  logins : ∀ name password, ¬ accounts.table.Holds name password → ∀ env res,
    login env accounts.server name password res = pure (sendHtml .k200Ok wrongPasswordPage res)

/-- An INSERT that succeeds appends the form itself if its name is new, and
else what the users hold already; one that fails is for a name that is there. -/
def Matches (db : Database) (env : Environment) (accounts : Accounts)
    (req : HttpRequest) : Prop :=
  ∀ form sql, accountForm req.m_string = .ok form → sqlInsert form.1 form.2 = .ok sql →
    if env.inserts accounts.log sql then
      if form.1 ∈ accounts.server.users then
        accounts.server.users.lookup (cstr (db.row accounts.log sql).1) =
          some (cstr (db.row accounts.log sql).2)
      else (cstr (db.row accounts.log sql).1, cstr (db.row accounts.log sql).2) = form
    else form.1 ∈ accounts.server.users

/-- The form has no value that would have to be escaped. -/
def NoEscape (req : HttpRequest) : Prop :=
  ∀ form, accountForm req.m_string = .ok form → NeedsNoEscape form.1 ∧ NeedsNoEscape form.2

/-- The same without a look at the row, for a form without escapes. -/
def MatchesForm (env : Environment) (accounts : Accounts) (req : HttpRequest) : Prop :=
  ∀ form sql, accountForm req.m_string = .ok form → sqlInsert form.1 form.2 = .ok sql →
    if env.inserts accounts.log sql then
      ∀ password ∈ accounts.server.users.lookup form.1, password = form.2
    else form.1 ∈ accounts.server.users

/-! ## One registration -/

theorem agrees_iff {accounts : Accounts} :
    accounts.Agrees ↔ accounts.server.users = sqlPool accounts.table := by
  refine ⟨Agrees.users, fun husers => ⟨husers, ?_⟩⟩
  intro name password hholds env res
  unfold login
  rw [if_neg]
  intro hlookup
  rw [husers] at hlookup
  exact hholds (holds_of_lookup_sqlPool hlookup)

variable {db : Database} {env : Environment}

theorem serve_eq_ok {accounts next : Accounts} {req : HttpRequest}
    {res : HttpResponse} (h : serve db env accounts req = .ok (next, res)) :
    ∃ form sql, accountForm req.m_string = .ok form ∧
      sqlInsert form.1 form.2 = .ok sql ∧
      next.server.users = accounts.server.users.add form.1 form.2 ∧
      next.table =
        if env.inserts accounts.log sql then accounts.table ++ [db.row accounts.log sql]
        else accounts.table := by
  unfold serve at h
  obtain ⟨form, hform, hrest⟩ := bind_eq_ok.mp h
  obtain ⟨sql, hsql, houtcome⟩ := bind_eq_ok.mp hrest
  obtain ⟨result, hresult, hpure⟩ := bind_eq_ok.mp houtcome
  unfold takeRoute at hresult
  obtain ⟨form', hform', hregister⟩ := lift_bind_result_eq_ok.mp hresult
  have hsame : form' = form := Except.ok.inj (hform'.symm.trans hform)
  have hserver := register_result hregister
  cases hpure
  refine ⟨form, sql, hform, hsql, ?_, rfl⟩
  change result.1.users = _
  rw [hserver, hsame]

theorem Agrees.serve_iff {accounts next : Accounts} {req : HttpRequest}
    {res : HttpResponse} (hagree : accounts.Agrees)
    (h : serve db env accounts req = .ok (next, res)) :
    next.Agrees ↔ Matches db env accounts req := by
  obtain ⟨form, sql, hform, hsql, husers, htable⟩ := serve_eq_ok h
  have hmatches : Matches db env accounts req ↔
      if env.inserts accounts.log sql then
        if form.1 ∈ accounts.server.users then
          accounts.server.users.lookup (cstr (db.row accounts.log sql).1) =
            some (cstr (db.row accounts.log sql).2)
        else (cstr (db.row accounts.log sql).1, cstr (db.row accounts.log sql).2) = form
      else form.1 ∈ accounts.server.users := by
    constructor
    · intro hmatch
      exact hmatch form sql hform hsql
    · intro hmatch form' sql' hform' hsql'
      obtain rfl := Except.ok.inj (hform.symm.trans hform')
      obtain rfl := Except.ok.inj (hsql.symm.trans hsql')
      exact hmatch
  rw [agrees_iff, hmatches, husers, htable]
  rw [agrees_iff] at hagree
  by_cases hinserted : env.inserts accounts.log sql = true
  · rw [if_pos hinserted, if_pos hinserted, sqlPool_append, ← hagree]
    exact Users.add_eq_insert_iff _ _ _
      (cstr (db.row accounts.log sql).1, cstr (db.row accounts.log sql).2)
  · rw [if_neg hinserted, if_neg hinserted, ← hagree, Users.add_eq_self_iff]

/-- The fields of a form are C strings. -/
theorem accountForm_cstr {m_string : Bytes} {form : Bytes × Bytes}
    (hform : accountForm m_string = .ok form) :
    (cstr form.1, cstr form.2) = form := by
  obtain ⟨_, rfl⟩ := accountForm_eq_ok.mp hform
  have hpassword : 0 ∉ passwordField m_string := by
    intro hmem
    simpa using List.mem_takeWhile_imp hmem
  exact Prod.ext (cstr_of_notMem (cstr_notMem _)) (cstr_of_notMem hpassword)

theorem matches_iff_of_noEscape {accounts : Accounts} {req : HttpRequest}
    (hplain : NoEscape req) : Matches db env accounts req ↔ MatchesForm env accounts req := by
  unfold Matches MatchesForm
  refine forall_congr' fun form => forall_congr' fun sql => ?_
  refine imp_congr_right fun hform => imp_congr_right fun hsql => ?_
  have hinserts : InsertsAccount sql form.1 form.2 := by
    rw [sqlInsert_text hsql]
    exact (insertsAccount_iff _ _).mpr (hplain form hform)
  have hrow := db.decodes accounts.log sql form.1 form.2 hinserts
  obtain ⟨hname, hpassword⟩ := Prod.mk.inj (accountForm_cstr hform)
  rw [hrow, hname, hpassword]
  split_ifs with _ hmem
  · obtain ⟨old, hold⟩ := Finmap.mem_iff.mp hmem
    rw [hold]
    simp
  · have hnone := Finmap.lookup_eq_none.mpr hmem
    simp [hnone]
  · rfl

/-! ## Runs -/

theorem agrees_load (workPath_ : Bytes) (table : LoginTable) (log : List SysCall) :
    (load workPath_ table log).Agrees :=
  agrees_iff.mpr rfl

theorem agrees_iff_of_run {start final : Accounts}
    {reqs : List HttpRequest} {calls} (hstart : start.Agrees)
    (hrun : run (serve db env) start reqs = .ok (final, calls)) :
    (final.Agrees ∧ ∀ call ∈ calls, call.pre.Agrees) ↔
      ∀ call ∈ calls, Matches db env call.pre call.input := by
  induction reqs generalizing start calls with
  | nil =>
      obtain ⟨rfl, rfl⟩ := run_nil_eq_ok.mp hrun
      simpa using hstart
  | cons req reqs ih =>
      obtain ⟨next, res, rest, hfirst, hrest, rfl⟩ := run_cons_eq_ok.mp hrun
      have hone := hstart.serve_iff hfirst
      simp only [List.forall_mem_cons]
      constructor
      · rintro ⟨hfinal, -, hpre⟩
        have hnext : next.Agrees := by
          cases reqs with
          | nil =>
              obtain ⟨rfl, _⟩ := run_nil_eq_ok.mp hrest
              exact hfinal
          | cons req' reqs =>
              obtain ⟨_, _, _, _, _, rfl⟩ := run_cons_eq_ok.mp hrest
              exact (List.forall_mem_cons.mp hpre).1
        exact ⟨hone.mp hnext, (ih hnext hrest).mp ⟨hfinal, hpre⟩⟩
      · rintro ⟨hmatch, hmatches⟩
        have hnext := hone.mpr hmatch
        have htail := (ih hnext hrest).mpr hmatches
        exact ⟨htail.1, hstart, htail.2⟩

/-- The users stay those of the table, from the time they are loaded, in
exactly those runs in which every request matches.  For a form without escapes
that is a matter of the form alone. -/
theorem agrees_iff_matches {workPath_ : Bytes} {table : LoginTable}
    {log : List SysCall} {final : Accounts} {reqs : List HttpRequest} {calls}
    (hrun : run (serve db env) (load workPath_ table log) reqs = .ok (final, calls)) :
    ((final.Agrees ∧ ∀ call ∈ calls, call.pre.Agrees) ↔
        ∀ call ∈ calls, Matches db env call.pre call.input) ∧
      ∀ call ∈ calls, NoEscape call.input →
        (Matches db env call.pre call.input ↔ MatchesForm env call.pre call.input) :=
  ⟨agrees_iff_of_run (agrees_load workPath_ table log) hrun,
    fun _ _ hplain => matches_iff_of_noEscape hplain⟩

def signUpRequest (m_string : Bytes) : HttpRequest where
  method_ := .kPost
  path_ := ascii "/3CGISQL.cgi"
  m_string := m_string

theorem accountForm_bob :
    accountForm (signUpRequest (ascii "user=bob&password=pw")).m_string =
      .ok (ascii "bob", ascii "pw") := by
  decide

theorem noEscape_bob : NoEscape (signUpRequest (ascii "user=bob&password=pw")) := by
  intro form hform
  obtain rfl := Except.ok.inj (accountForm_bob.symm.trans hform)
  exact ⟨needsNoEscape_of_notMem (by decide) (by decide),
    needsNoEscape_of_notMem (by decide) (by decide)⟩

theorem agrees_iff_matches_new :
    ∃ final calls,
      run (serve .ofLiterals { inserts := fun _ _ => true })
          (load (ascii ".") [(ascii "ann", ascii "1")] [])
          [signUpRequest (ascii "user=bob&password=pw")] = .ok (final, calls) ∧
        final.Agrees ∧ ∀ call ∈ calls, call.pre.Agrees := by
  have hrun : ∃ final calls,
      run (serve .ofLiterals { inserts := fun _ _ => true })
        (load (ascii ".") [(ascii "ann", ascii "1")] [])
        [signUpRequest (ascii "user=bob&password=pw")] = .ok (final, calls) :=
    ⟨_, _, rfl⟩
  obtain ⟨final, calls, hrun⟩ := hrun
  obtain ⟨hagrees, hform⟩ := agrees_iff_matches hrun
  refine ⟨final, calls, hrun, hagrees.mpr ?_⟩
  obtain ⟨_, _, _, _, hrest, rfl⟩ := run_cons_eq_ok.mp hrun
  obtain ⟨_, rfl⟩ := run_nil_eq_ok.mp hrest
  intro call hcall
  refine (hform call hcall ?_).mpr ?_
  · rw [List.mem_singleton.mp hcall]
    exact noEscape_bob
  · intro form sql hform' _
    rw [List.mem_singleton.mp hcall] at hform' ⊢
    obtain rfl := Except.ok.inj (accountForm_bob.symm.trans hform')
    have hother : ascii "bob" ≠ cstr (ascii "ann") := by decide
    simp [load, sqlPool, Finmap.lookup_insert_of_ne _ hother]

/-- The INSERT fails and the table stays empty, but the user can log in. -/
theorem not_agrees_failed_insert :
    ∃ final calls,
      run (serve .ofLiterals { inserts := fun _ _ => false }) (load (ascii ".") [] [])
          [signUpRequest (ascii "user=bob&password=pw")] = .ok (final, calls) ∧
        final.table = [] ∧
        final.server.users.lookup (ascii "bob") = some (ascii "pw") ∧ ¬ final.Agrees := by
  have hrun : ∃ final calls,
      run (serve .ofLiterals { inserts := fun _ _ => false }) (load (ascii ".") [] [])
        [signUpRequest (ascii "user=bob&password=pw")] = .ok (final, calls) :=
    ⟨_, _, rfl⟩
  obtain ⟨final, calls, hrun⟩ := hrun
  refine ⟨final, calls, hrun, ?_⟩
  obtain ⟨next, _, _, hserve, hrest, _⟩ := run_cons_eq_ok.mp hrun
  obtain ⟨rfl, _⟩ := run_nil_eq_ok.mp hrest
  obtain ⟨form, sql, hform, _, husers, htable⟩ := serve_eq_ok hserve
  obtain rfl := Except.ok.inj (accountForm_bob.symm.trans hform)
  have hlookup : final.server.users.lookup (ascii "bob") = some (ascii "pw") := by
    rw [husers]
    exact Finmap.lookup_insert _
  refine ⟨htable, hlookup, ?_⟩
  intro hagree
  rw [hagree.users, htable] at hlookup
  simp [load, sqlPool] at hlookup

end Accounts

end MyFileServer
