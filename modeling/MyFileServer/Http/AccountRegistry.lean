import MyFileServer.Http.FileStore
import MyFileServer.Http.HandlerReturns
import MyFileServer.Http.UserAccounts

/-!
# The server as a registry of accounts

Whatever requests come, in whatever order, the users of the server are those of
a registry in which the first registration of a name stands: no request takes a
user away or changes a password, and a login is granted for the password of the
registry and for no other.
-/

namespace MyFileServer

open Execution CallLog

/-! ## The registry -/

/-- The passwords by name. -/
abbrev Registry := Bytes → Option Bytes

def Users.registry (users : Users) : Registry := fun name => users.lookup name

inductive AccountCommand
  | register (name password : Bytes)
  | login (name password : Bytes)
  | other

inductive AccountReply
  | registered
  | granted
  | refused
  | other
  deriving DecidableEq

def registryStep (registry : Registry) : AccountCommand → Registry × AccountReply
  | .register name password =>
      (if registry name = none then Function.update registry name (some password) else registry,
        .registered)
  | .login name password =>
      (registry, if registry name = some password then .granted else .refused)
  | .other => (registry, .other)

/-- An account stays as it is. -/
theorem registryStep_kept {registry : Registry} {name password : Bytes}
    (hname : registry name = some password) (command : AccountCommand) :
    (registryStep registry command).1 name = some password := by
  cases command with
  | register other _ =>
      change (if registry other = none then _ else registry) name = some password
      split_ifs with hnone
      · have hne : name ≠ other := by
          rintro rfl
          rw [hname] at hnone
          cases hnone
        rw [Function.update_of_ne hne]
        exact hname
      · exact hname
  | login other _ => exact hname
  | other => exact hname

theorem specRun_kept {registry : Registry} {name password : Bytes}
    (hname : registry name = some password) (commands : List AccountCommand) :
    (specRun registryStep registry commands).1 name = some password := by
  induction commands generalizing registry with
  | nil => exact hname
  | cons command commands ih => exact ih (registryStep_kept hname command)

/-! ## The requests -/

/-- What a request is for the accounts: it registers or logs in if its path
names nothing on the disk and the form of its body can be read. -/
inductive Commands (env : Environment) (s : Serving) (req : HttpRequest) :
    AccountCommand → Prop
  | register (name password : Bytes) :
      req.path_ ≠ ascii "/favicon.ico" →
      env.status s.before (cstr (s.server.workPath_ ++ req.path_)) = none →
      routeOf req.path_ = .ok .register → accountForm req.m_string = .ok (name, password) →
      Commands env s req (.register name password)
  | login (name password : Bytes) :
      req.path_ ≠ ascii "/favicon.ico" →
      env.status s.before (cstr (s.server.workPath_ ++ req.path_)) = none →
      routeOf req.path_ = .ok .login → accountForm req.m_string = .ok (name, password) →
      Commands env s req (.login name password)
  | icon : req.path_ = ascii "/favicon.ico" → Commands env s req .other
  | existing :
      env.status s.before (cstr (s.server.workPath_ ++ req.path_)) ≠ none →
      Commands env s req .other
  | route (route : Route) :
      routeOf req.path_ = .ok route → route ≠ .register → route ≠ .login →
      Commands env s req .other

/-- The page that the user gets to see. -/
inductive Tells (env : Environment) (workPath_ : Bytes) (res : HttpResponse) :
    AccountReply → Prop
  | registered : res.body_ = signInPage ∨ res.body_ = nameTakenPage →
      Tells env workPath_ res .registered
  | granted (before : List SysCall) (html : Bytes) :
      (getRootListPage env workPath_ before).result = .ok html → res.body_ = html →
      Tells env workPath_ res .granted
  | refused : res.body_ = wrongPasswordPage → Tells env workPath_ res .refused
  | other : Tells env workPath_ res .other

/-! ## One request -/

section Request

variable {env : Environment} {before : List SysCall} {server server' : FileServer}
  {req : HttpRequest} {path : Bytes} {res response : HttpResponse}

theorem registry_add (users : Users) (name password : Bytes) :
    (Users.add users name password).registry =
      (registryStep users.registry (.register name password)).1 := by
  unfold Users.add
  change _ = if users.lookup name = none then
    Function.update users.registry name (some password) else users.registry
  by_cases hname : name ∈ users
  · have hsome : users.lookup name ≠ none := mt Finmap.lookup_eq_none.mp (not_not.mpr hname)
    rw [if_pos hname, if_neg hsome]
  · rw [if_neg hname, if_pos (Finmap.lookup_eq_none.mpr hname)]
    funext other
    by_cases hother : other = name
    · rw [hother, Function.update_self]
      exact Finmap.lookup_insert users
    · rw [Function.update_of_ne hother]
      exact Finmap.lookup_insert_of_ne _ hother

theorem register_tells {name password : Bytes}
    (hcall : (register env server name password res before).result = .ok (server', response)) :
    server' = { server with users := Users.add server.users name password } ∧
      (response.body_ = signInPage ∨ response.body_ = nameTakenPage) := by
  refine ⟨register_result hcall, ?_⟩
  unfold register at hcall
  obtain ⟨sql, _, hupdate⟩ := lift_bind_result_eq_ok.mp hcall
  obtain ⟨ins, _, hresult⟩ := bind_result_eq_ok.mp hupdate
  obtain ⟨_, rfl⟩ := Prod.mk.inj (Except.ok.inj hresult)
  rw [sendHtml_body_]
  cases ins with
  | true => exact .inl (if_pos rfl)
  | false => exact .inr (if_neg Bool.false_ne_true)

theorem login_tells {name password : Bytes}
    (hcall : (login env server name password res before).result = .ok response) :
    Tells env server.workPath_ response
      (registryStep server.users.registry (.login name password)).2 := by
  change Tells env server.workPath_ response
    (if server.users.lookup name = some password then .granted else .refused)
  unfold login at hcall
  split_ifs at hcall ⊢
  · obtain ⟨html, hpage, hresult⟩ := bind_result_eq_ok.mp hcall
    rw [← Except.ok.inj hresult]
    exact .granted before html hpage (sendHtml_body_ _ _ _)
  · rw [← Except.ok.inj hcall]
    exact .refused (sendHtml_body_ _ _ _)

/-- Every other route leaves the server. -/
theorem takeRoute_server {route : Route} (hroute : route ≠ .register)
    (hcall : (takeRoute env server req path res route before).result = .ok (server', response)) :
    server' = server := by
  have hkept : ∀ {x : Sys HttpResponse} {before : List SysCall},
      ((x >>= fun response => pure (server, response)) before).result = .ok (server', response) →
        server' = server := by
    intro x before h
    obtain ⟨_, _, hresult⟩ := bind_result_eq_ok.mp h
    exact (congrArg Prod.fst (Except.ok.inj hresult)).symm
  cases route with
  | signUp => exact (congrArg Prod.fst (Except.ok.inj hcall)).symm
  | signIn => exact (congrArg Prod.fst (Except.ok.inj hcall)).symm
  | login =>
      obtain ⟨form, _, hlogin⟩ := lift_bind_result_eq_ok.mp hcall
      exact hkept hlogin
  | register => exact absurd rfl hroute
  | download => exact hkept hcall
  | upload => exact hkept hcall
  | delete => exact hkept hcall
  | notFound => exact (congrArg Prod.fst (Except.ok.inj hcall)).symm

theorem serve_other {s next : Serving} {served : Served}
    (hcommands : Commands env s req .other) (hsame : next.server = s.server) :
    ∃ command, Commands env s req command ∧ next.server.workPath_ = s.server.workPath_ ∧
      next.server.users.registry = (registryStep s.server.users.registry command).1 ∧
      Tells env s.server.workPath_ served.response
        (registryStep s.server.users.registry command).2 :=
  ⟨.other, hcommands, congrArg FileServer.workPath_ hsame,
    congrArg (fun server => server.users.registry) hsame, .other⟩

theorem serve_commands {s next : Serving} {served : Served}
    (hstep : serve env s req = .ok (next, served)) :
    ∃ command, Commands env s req command ∧ next.server.workPath_ = s.server.workPath_ ∧
      next.server.users.registry = (registryStep s.server.users.registry command).1 ∧
      Tells env s.server.workPath_ served.response
        (registryStep s.server.users.registry command).2 := by
  obtain ⟨hresult, _⟩ := serve_eq_ok hstep
  by_cases hicon : req.path_ = ascii "/favicon.ico"
  · unfold buildResponse at hresult
    rw [if_pos hicon] at hresult
    exact serve_other (.icon hicon) (congrArg Prod.fst (Except.ok.inj hresult)).symm
  rw [buildResponse_of_ne hicon] at hresult
  unfold setResponseBody at hresult
  obtain ⟨path, hpath, hstat⟩ := lift_bind_result_eq_ok.mp hresult
  obtain ⟨_, rfl⟩ := concat_eq_ok.mp hpath
  rw [stat_bind_result] at hstat
  cases hstatus : env.status s.before (cstr (s.server.workPath_ ++ req.path_)) with
  | some buffer =>
      rw [hstatus] at hstat
      obtain ⟨_, _, hbuilt⟩ := bind_result_eq_ok.mp hstat
      refine serve_other (.existing (by simp [hstatus])) ?_
      exact (congrArg Prod.fst (Except.ok.inj hbuilt)).symm
  | none =>
      rw [hstatus] at hstat
      obtain ⟨route, hroute, htaken⟩ := lift_bind_result_eq_ok.mp hstat
      by_cases hregister : route = .register
      · subst hregister
        obtain ⟨form, hform, hcall⟩ := lift_bind_result_eq_ok.mp htaken
        obtain ⟨hserver, hpage⟩ := register_tells hcall
        refine ⟨.register form.1 form.2, .register _ _ hicon hstatus hroute hform, ?_, ?_,
          .registered hpage⟩
        · rw [hserver]
        · rw [hserver]
          exact registry_add _ _ _
      have hserver := takeRoute_server hregister htaken
      by_cases hlogin : route = .login
      · subst hlogin
        obtain ⟨form, hform, hcall⟩ := lift_bind_result_eq_ok.mp htaken
        obtain ⟨response, hresponse, hbuilt⟩ := bind_result_eq_ok.mp hcall
        obtain ⟨_, rfl⟩ := Prod.mk.inj (Except.ok.inj hbuilt)
        refine ⟨.login form.1 form.2, .login _ _ hicon hstatus hroute hform, ?_, ?_,
          login_tells hresponse⟩
        · rw [hserver]
        · rw [hserver]
          rfl
      · exact serve_other (.route route hroute hregister hlogin) hserver

end Request

/-! ## Runs -/

theorem accounts_of_run {env : Environment} {s final : Serving} {requests : List HttpRequest}
    {calls : List (Call Serving HttpRequest Served)}
    (hrun : run (serve env) s requests = .ok (final, calls)) :
    ∃ commands, List.Forall₂ (fun call command => Commands env call.pre call.input command)
        calls commands ∧
      final.server.users.registry = (specRun registryStep s.server.users.registry commands).1 ∧
      List.Forall₂ (fun call reply => Tells env s.server.workPath_ call.output.response reply)
        calls (specRun registryStep s.server.users.registry commands).2 ∧
      ∀ name password, s.server.users.registry name = some password →
        final.server.users.registry name = some password := by
  have hrefines : ∃ commands,
      List.Forall₂ (fun call command => Commands env call.pre call.input command)
        calls commands ∧
      final.server.users.registry = (specRun registryStep s.server.users.registry commands).1 ∧
      List.Forall₂ (fun call reply => Tells env s.server.workPath_ call.output.response reply)
        calls (specRun registryStep s.server.users.registry commands).2 := by
    induction requests generalizing s calls with
    | nil =>
        obtain ⟨rfl, rfl⟩ := run_nil_eq_ok.mp hrun
        exact ⟨[], .nil, rfl, .nil⟩
    | cons req requests ih =>
        obtain ⟨next, served, rest, hstep, hrest, rfl⟩ := run_cons_eq_ok.mp hrun
        obtain ⟨command, hcommand, hpath, husers, htells⟩ := serve_commands hstep
        obtain ⟨commands, hcommands, hfinal, hreplies⟩ := ih hrest
        rw [hpath, husers] at hreplies
        rw [husers] at hfinal
        exact ⟨command :: commands, .cons hcommand hcommands, hfinal, .cons htells hreplies⟩
  obtain ⟨commands, hcommands, hfinal, hreplies⟩ := hrefines
  refine ⟨commands, hcommands, hfinal, hreplies, fun name password hname => ?_⟩
  rw [hfinal]
  exact specRun_kept hname commands

/-! ### A new user, the name again, and a wrong password -/

def bob : Users :=
  (∅ : Users).insert (ascii "bob") (ascii "b")

def annServing : Serving where
  server := { workPath_ := ascii "/srv/files", users := bob }
  before := []

def annRequests : List HttpRequest :=
  [{ path_ := ascii "/3CGISQL.cgi", m_string := ascii "user=ann&password=a" },
    { path_ := ascii "/3CGISQL.cgi", m_string := ascii "user=bob&password=a" },
    { path_ := ascii "/2CGISQL.cgi", m_string := ascii "user=ann&password=b" }]

theorem serve_ann :
    (run (serve {}) annServing annRequests).isOk = true := by
  decide +kernel

theorem accounts_of_run_ann : ∃ final calls,
    run (serve {}) annServing annRequests = .ok (final, calls) ∧
    (∃ commands, List.Forall₂ (fun call command =>
        Commands {} call.pre call.input command) calls commands ∧
      final.server.users.registry =
        (specRun registryStep annServing.server.users.registry commands).1 ∧
      List.Forall₂ (fun call reply =>
        Tells {} annServing.server.workPath_ call.output.response reply)
        calls (specRun registryStep annServing.server.users.registry commands).2) ∧
    final.server.users.registry (ascii "bob") = some (ascii "b") := by
  cases hrun : run (serve {}) annServing annRequests with
  | error fault => exact absurd serve_ann (by simp [hrun, Except.isOk, Except.toBool])
  | ok result =>
      obtain ⟨commands, hcommands, hfinal, hreplies, hkept⟩ := accounts_of_run hrun
      refine ⟨result.1, result.2, rfl, ⟨commands, hcommands, hfinal, hreplies⟩, ?_⟩
      exact hkept _ _ (Finmap.lookup_insert _)

end MyFileServer
