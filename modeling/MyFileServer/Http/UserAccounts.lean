import MyFileServer.Http.HandlerCalls

/-!
# The users in memory

`sql_pool` fills `users` from the rows of the table, and a request to register
adds to `users` a name that is new there, whatever the database says.
-/

namespace MyFileServer

open Execution CallLog

/-- The rows of table login, in the order in which they were inserted. -/
abbrev LoginTable := List (Bytes × Bytes)

/-- The loop of `sql_pool` over the rows, whose columns come as C strings. -/
def sqlPool (table : LoginTable) : Users :=
  table.foldl (fun users row => users.insert (cstr row.1) (cstr row.2)) ∅

theorem sqlPool_append (table : LoginTable) (row : Bytes × Bytes) :
    sqlPool (table ++ [row]) = (sqlPool table).insert (cstr row.1) (cstr row.2) := by
  unfold sqlPool
  rw [List.foldl_append]
  rfl

theorem register_result {env : Environment} {server server' : FileServer}
    {name password : Bytes} {res res' : HttpResponse} {before : List SysCall}
    (h : (register env server name password res before).result = .ok (server', res')) :
    server' = { server with users := Users.add server.users name password } := by
  unfold register at h
  obtain ⟨sql, _, hupdate⟩ := lift_bind_result_eq_ok.mp h
  unfold Environment.update at hupdate
  rw [perform_bind_result] at hupdate
  cases hupdate
  rfl

theorem Users.insert_eq_self_iff (users : Users) (name password : Bytes) :
    users = users.insert name password ↔ users.lookup name = some password := by
  constructor
  · intro hsame
    rw [hsame, Finmap.lookup_insert]
  · intro hlookup
    apply Finmap.ext_lookup
    intro other
    by_cases hother : other = name
    · rw [hother, hlookup, Finmap.lookup_insert]
    · rw [Finmap.lookup_insert_of_ne _ hother]

/-- Inserting a new name gives what inserting another pair gives only if the
pairs are the same. -/
theorem Users.insert_eq_insert_iff {users : Users} {name password : Bytes}
    (hname : name ∉ users) (row : Bytes × Bytes) :
    users.insert name password = users.insert row.1 row.2 ↔ row = (name, password) := by
  constructor
  · intro hsame
    have hlookup := congrArg (Finmap.lookup name) hsame
    rw [Finmap.lookup_insert] at hlookup
    have hrow : name = row.1 := by
      by_contra hother
      rw [Finmap.lookup_insert_of_ne _ hother, Finmap.lookup_eq_none.mpr hname] at hlookup
      cases hlookup
    rw [hrow, Finmap.lookup_insert, Option.some.injEq] at hlookup
    exact Prod.ext hrow.symm hlookup.symm
  · rintro rfl
    rfl

/-- What a registration adds is what a row of the table would give. -/
theorem Users.add_eq_insert_iff (users : Users) (name password : Bytes)
    (row : Bytes × Bytes) :
    users.add name password = users.insert row.1 row.2 ↔
      if name ∈ users then users.lookup row.1 = some row.2 else row = (name, password) := by
  unfold Users.add
  split_ifs with hname
  · exact insert_eq_self_iff users row.1 row.2
  · exact insert_eq_insert_iff hname row

theorem Users.add_eq_self_iff (users : Users) (name password : Bytes) :
    users.add name password = users ↔ name ∈ users := by
  unfold Users.add
  split_ifs with hname
  · simp [hname]
  · refine iff_of_false ?_ hname
    intro hsame
    have hmem : name ∈ users.insert name password :=
      Finmap.mem_insert.mpr (Or.inl rfl)
    rw [hsame] at hmem
    exact hname hmem

/-- The table has the name with the password. -/
def LoginTable.Holds (table : LoginTable) (name password : Bytes) : Prop :=
  ∃ row ∈ table, cstr row.1 = name ∧ cstr row.2 = password

theorem holds_of_lookup_sqlPool {table : LoginTable} {name password : Bytes}
    (h : (sqlPool table).lookup name = some password) : table.Holds name password := by
  induction table using List.reverseRecOn with
  | nil => simp [sqlPool] at h
  | append_singleton table row ih =>
      rw [sqlPool_append] at h
      by_cases hname : name = cstr row.1
      · rw [hname, Finmap.lookup_insert, Option.some.injEq] at h
        exact ⟨row, by simp, hname.symm, h⟩
      · rw [Finmap.lookup_insert_of_ne _ hname] at h
        obtain ⟨old, hmem, hold⟩ := ih h
        exact ⟨old, List.mem_append_left _ hmem, hold⟩

end MyFileServer
