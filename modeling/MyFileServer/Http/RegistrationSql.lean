import MyFileServer.Http.AccountForm
import MyFileServer.Lib.SqlText

/-!
# The statement of a registration

The route writes the name and the password between quotes into the text of a
statement.  How MySQL reads that text back is `SqlText.tokens`; it is the
statement that was meant exactly when neither value has a quote and each
backslash in them stands before `%` or `_`.
-/

namespace MyFileServer

open Execution CallLog SqlText

/-- The tokens of the statement in front of its values. -/
def insertHead : List Token :=
  [.word (ascii "INSERT"), .word (ascii "INTO"), .word (ascii "login"),
    .symbol (chr '('), .word (ascii "user"), .symbol (chr ','),
    .word (ascii "password"), .symbol (chr ')'), .word (ascii "VALUES"),
    .symbol (chr '(')]

/-- A single statement that inserts the two values; it may end with a
semicolon. -/
def InsertsAccount (sql name password : Bytes) : Prop :=
  ∃ list close, tokens sql = some list ∧ (close = [] ∨ close = [.symbol (chr ';')]) ∧
    joinLiterals list = insertHead ++
      ([.literal name, .symbol (chr ','), .literal password, .symbol (chr ')')] ++ close)

/-- Nothing that would have to be written in another way between quotes. -/
def NeedsNoEscape (value : Bytes) : Prop :=
  chr '\'' ∉ value ∧ ∀ front back, value = front ++ chr '\\' :: back →
    back.head? = some (chr '%') ∨ back.head? = some (chr '_')

theorem needsNoEscape_iff (value : Bytes) :
    NeedsNoEscape value ↔ Plain (chr '\'') value :=
  (plain_iff (by decide) (by decide)).symm

def insertWords : Bytes :=
  ascii "INSERT INTO login(user, password) VALUES("

/-- The text behind the first quote. -/
def insertRest (name password : Bytes) : Bytes :=
  name ++ chr '\'' :: chr ',' :: chr ' ' :: chr '\'' ::
    (password ++ [chr '\'', chr ')'])

theorem sqlInsert_text {name password sql : Bytes}
    (hsql : sqlInsert name password = .ok sql) :
    sql = insertWords ++ chr '\'' :: insertRest name password := by
  unfold sqlInsert at hsql
  dsimp only at hsql
  split at hsql
  next =>
    obtain rfl := Except.ok.inj hsql
    simp [insertWords, insertRest, ascii]
  next => cases hsql

theorem sqlInsert_eq_ok {name password sql : Bytes} :
    sqlInsert name password = .ok sql ↔
      name.length + password.length ≤ 151 ∧
        sql = insertWords ++ chr '\'' :: insertRest name password := by
  constructor
  · intro hsql
    exact ⟨sqlInsert_returns_iff.mp ⟨sql, hsql⟩, sqlInsert_text hsql⟩
  · intro h
    obtain ⟨built, hbuilt⟩ := sqlInsert_returns_iff.mpr h.1
    rw [h.2, ← sqlInsert_text hbuilt]
    exact hbuilt

/-- The words of the statement are read as they are, whatever follows. -/
theorem tokens_insertWords (rest : Bytes) :
    tokens (insertWords ++ rest) = (tokens rest).map (insertHead ++ ·) := by
  have hsplit : insertWords ++ rest =
      ascii "INSERT" ++ chr ' ' :: (ascii "INTO" ++ chr ' ' :: (ascii "login" ++
        chr '(' :: (ascii "user" ++ chr ',' :: chr ' ' :: (ascii "password" ++
        chr ')' :: chr ' ' :: (ascii "VALUES" ++ chr '(' :: rest))))) := rfl
  rw [hsplit, tokens_word (by decide) rfl rfl,
    tokens_blank (by decide), tokens_word (by decide) rfl rfl,
    tokens_blank (by decide), tokens_word (by decide) rfl rfl,
    tokens_symbol rfl, tokens_word (by decide) rfl rfl,
    tokens_symbol rfl, tokens_blank (by decide),
    tokens_word (by decide) rfl rfl, tokens_symbol rfl,
    tokens_blank (by decide), tokens_word (by decide) rfl rfl,
    tokens_symbol rfl]
  cases tokens rest <;> rfl

/-! ## What the text is read as -/

theorem joinLiterals_symbol (c : UInt8) (list : List Token) :
    joinLiterals (.symbol c :: list) = .symbol c :: joinLiterals list :=
  joinLiterals_cons (by simp) list

theorem joinLiterals_insertHead (list : List Token) :
    joinLiterals (insertHead ++ list) = insertHead ++ joinLiterals list :=
  joinLiterals_append (by simp [insertHead]) list

/-- The second value, behind its opening quote. -/
theorem plain_of_closing {value : Bytes} {list close : List Token}
    (htokens : tokens (chr '\'' :: (value ++ [chr '\'', chr ')'])) = some list)
    (hjoin : joinLiterals list = .literal value :: .symbol (chr ')') :: close) :
    Plain (chr '\'') value := by
  have hlength : (value ++ [chr '\'', chr ')']).length = value.length + 2 := by simp
  obtain ⟨raw, rest, later, htext, hshort, hsame, _, _, hrest⟩ :=
    literal_of_joined (.inl rfl) htokens hjoin (by
      rw [hlength, weight_cons]
      simp only [Token.weight]
      omega)
  have htotal := congrArg List.length htext
  rw [hlength, List.length_append, List.length_cons] at htotal
  rw [weight_cons] at hrest
  simp only [Token.weight] at hrest
  exact (hsame (by omega)).2

/-- Both values, behind the first opening quote. -/
theorem plain_of_values {name password : Bytes} {list close : List Token}
    (htokens : tokens (chr '\'' :: insertRest name password) = some list)
    (hjoin : joinLiterals list = .literal name :: .symbol (chr ',') ::
      .literal password :: .symbol (chr ')') :: close) :
    Plain (chr '\'') name ∧ Plain (chr '\'') password := by
  have hlength : (insertRest name password).length =
      name.length + password.length + 6 := by
    simp [insertRest]
    omega
  obtain ⟨raw, rest, later, htext, hshort, hsame, hlater, hmore, hrest⟩ :=
    literal_of_joined (.inl rfl) htokens hjoin (by
      rw [hlength]
      simp only [weight_cons, Token.weight]
      omega)
  have htotal := congrArg List.length htext
  rw [hlength, List.length_append, List.length_cons] at htotal
  simp only [weight_cons, Token.weight] at hrest
  have hraw : name.length = raw.length := by
    by_contra hlonger
    -- one byte more, and the literal would end at the comma
    have hone : (name ++ [chr '\'']).length = raw.length := by
      rw [List.length_append, List.length_singleton]
      omega
    have hcomma : (name ++ [chr '\'']) ++ chr ',' :: chr ' ' :: chr '\'' ::
        (password ++ [chr '\'', chr ')']) = raw ++ chr '\'' :: rest := by
      refine Eq.trans ?_ htext
      simp [insertRest]
    have hquote := (List.cons.inj (List.append_inj hcomma hone).2).1
    exact absurd hquote (by decide)
  obtain ⟨rfl, hname⟩ := hsame hraw
  refine ⟨hname, ?_⟩
  have hbehind : rest = chr ',' :: chr ' ' :: chr '\'' ::
      (password ++ [chr '\'', chr ')']) := by
    have hcut := List.append_cancel_left htext
    exact (List.cons.inj hcut).2.symm
  rw [hbehind, tokens_symbol rfl, tokens_blank (by decide)] at hlater
  obtain ⟨values, hvalues, rfl⟩ := Option.map_eq_some_iff.mp hlater
  rw [joinLiterals_symbol] at hmore
  exact plain_of_closing hvalues (List.cons.inj hmore).2

theorem tokens_values {name password : Bytes} (hname : Plain (chr '\'') name)
    (hpassword : Plain (chr '\'') password) :
    tokens (chr '\'' :: insertRest name password) =
      some [.literal name, .symbol (chr ','), .literal password, .symbol (chr ')')] := by
  have hread : readLiteral (chr '\'') (insertRest name password) = some (name, _) :=
    readLiteral_of_plain (by decide) hname (by simp)
  have hread' : readLiteral (chr '\'') (password ++ [chr '\'', chr ')']) =
      some (password, [chr ')']) :=
    readLiteral_of_plain (by decide) hpassword (by decide)
  have hquote : chr '\'' = 39 ∨ chr '\'' = 34 := .inl rfl
  rw [tokens_literal hquote, hread, Option.bind_some]
  simp only
  rw [tokens_symbol rfl, tokens_blank (by decide), tokens_literal hquote, hread',
    Option.bind_some]
  simp only
  rw [tokens_symbol rfl]
  rfl

/-- The statement that the route builds inserts the two values exactly when
they need no escape. -/
theorem insertsAccount_iff (name password : Bytes) :
    InsertsAccount (insertWords ++ chr '\'' :: insertRest name password) name password ↔
      NeedsNoEscape name ∧ NeedsNoEscape password := by
  rw [needsNoEscape_iff, needsNoEscape_iff]
  unfold InsertsAccount
  rw [tokens_insertWords]
  constructor
  · intro h
    obtain ⟨list, close, hlist, _, hjoin⟩ := h
    obtain ⟨values, hvalues, rfl⟩ := Option.map_eq_some_iff.mp hlist
    rw [joinLiterals_insertHead] at hjoin
    exact plain_of_values hvalues (List.append_cancel_left hjoin)
  · intro h
    rw [tokens_values h.1 h.2]
    exact ⟨_, [], rfl, .inl rfl, rfl⟩

/-! ## The route -/

/-- What the register route sends for the body of the form inserts the name and
the password. -/
def RegistersFaithfully (env : Environment) (server : FileServer) (req : HttpRequest)
    (res : HttpResponse) (before : List SysCall) (name password : Bytes) : Prop :=
  ∃ sql, (setResponseBody env server req res before).calls =
      [.stat (server.workPath_ ++ req.path_), .update sql] ∧
    InsertsAccount sql name password

theorem register_calls {name password sql : Bytes} (hsql : sqlInsert name password = .ok sql)
    (env : Environment) (server : FileServer) (res : HttpResponse)
    (before : List SysCall) :
    (register env server name password res before).calls = [.update sql] := by
  unfold register Environment.update
  rw [hsql, lift_ok_bind, perform_bind]
  rfl

theorem register_calls_of_fault {name password : Bytes}
    (hsql : ¬ Returns (sqlInsert name password)) (env : Environment) (server : FileServer)
    (res : HttpResponse) (before : List SysCall) :
    (register env server name password res before).calls = [] := by
  unfold register
  cases hfault : sqlInsert name password with
  | ok sql => exact absurd ⟨sql, hfault⟩ hsql
  | error fault => rw [bind_of_error (lift_apply _ _)]

theorem setResponseBody_register_calls {name password : Bytes}
    {env : Environment} {server : FileServer} {req : HttpRequest} {res : HttpResponse}
    {before : List SysCall} (hform : accountForm req.m_string = .ok (name, password))
    (hfit : server.workPath_.length + req.path_.length ≤ maxSize)
    (hstatus : env.status before (cstr (server.workPath_ ++ req.path_)) = none)
    (hroute : routeOf req.path_ = .ok .register) :
    (setResponseBody env server req res before).calls =
      .stat (server.workPath_ ++ req.path_) ::
        (register env server name password res
          (before ++ [.stat (server.workPath_ ++ req.path_)])).calls := by
  rw [setResponseBody_of_none hfit hstatus hroute]
  unfold takeRoute
  simp only
  rw [hform, lift_ok_bind]

/-- The route registers faithfully exactly when the statement has room for the
two values and neither needs an escape. -/
theorem registersFaithfully_iff {name password : Bytes}
    (hdelimiter : chr '&' ∉ name) (hnul : 0 ∉ name) (hpassword : 0 ∉ password)
    (hname : name.length ≤ 99) (hlong : password.length ≤ 99)
    {env : Environment} {server : FileServer} {req : HttpRequest} {res : HttpResponse}
    {before : List SysCall} (hbody : req.m_string = encodeForm name password)
    (hfit : server.workPath_.length + req.path_.length ≤ maxSize)
    (hstatus : env.status before (cstr (server.workPath_ ++ req.path_)) = none)
    (hroute : routeOf req.path_ = .ok .register) :
    RegistersFaithfully env server req res before name password ↔
      name.length + password.length ≤ 151 ∧
        NeedsNoEscape name ∧ NeedsNoEscape password := by
  have hform := accountForm_encodeForm hdelimiter hnul hpassword hname hlong
  rw [← hbody] at hform
  unfold RegistersFaithfully
  rw [setResponseBody_register_calls hform hfit hstatus hroute]
  simp only [List.cons.injEq, true_and]
  by_cases hroom : name.length + password.length ≤ 151
  · have hsql := sqlInsert_eq_ok.mpr ⟨hroom, rfl⟩
    rw [register_calls hsql]
    simp only [List.cons.injEq, SysCall.update.injEq, and_true, exists_eq_left', hroom,
      true_and]
    exact insertsAccount_iff name password
  · rw [register_calls_of_fault (mt sqlInsert_returns_iff.mp hroom)]
    simp [hroom]

theorem needsNoEscape_of_notMem {value : Bytes} (hquote : chr '\'' ∉ value)
    (hbackslash : chr '\\' ∉ value) : NeedsNoEscape value := by
  refine ⟨hquote, ?_⟩
  rintro front back rfl
  simp at hbackslash

def registration (name password : Bytes) : HttpRequest :=
  { path_ := ascii "/3", m_string := encodeForm name password }

theorem registersFaithfully_ann :
    RegistersFaithfully {} { workPath_ := ascii "." }
      (registration (ascii "ann") (ascii "-- /*")) { closeConnection_ := false } []
      (ascii "ann") (ascii "-- /*") :=
  (registersFaithfully_iff (by decide) (by decide) (by decide) (by decide) (by decide) rfl
    (lt_maxSize (by decide)).le rfl rfl).mpr
    ⟨by decide, needsNoEscape_of_notMem (by decide) (by decide),
      needsNoEscape_of_notMem (by decide) (by decide)⟩

/-- A quote in the name ends the first literal. -/
theorem registersFaithfully_quote :
    ¬ ∀ (name password : Bytes), chr '&' ∉ name → 0 ∉ name → 0 ∉ password →
      name.length ≤ 99 → password.length ≤ 99 → name.length + password.length ≤ 151 →
      RegistersFaithfully {} { workPath_ := ascii "." } (registration name password)
        { closeConnection_ := false } [] name password := by
  intro hclaim
  obtain ⟨sql, hcalls, hinserts⟩ := hclaim (ascii "O'Brien") (ascii "pw") (by decide)
    (by decide) (by decide) (by decide) (by decide) (by decide)
  have hform : accountForm (registration (ascii "O'Brien") (ascii "pw")).m_string =
      .ok (ascii "O'Brien", ascii "pw") := rfl
  rw [setResponseBody_register_calls hform (lt_maxSize (by decide)).le rfl rfl,
    register_calls (sqlInsert_eq_ok.mpr ⟨by decide, rfl⟩)] at hcalls
  obtain rfl := SysCall.update.inj (List.cons.inj (List.cons.inj hcalls).2).1
  exact ((insertsAccount_iff _ _).mp hinserts).1.1 (by decide)

end MyFileServer
