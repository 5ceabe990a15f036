import MyFileServer.Http.FileDescriptors
import MyFileServer.Net.OutputStream

/-!
# Which descriptors are closed

A request opens at most one file to send, and nothing but the `sendFile` of
the same request can close it: the descriptor stays open for good exactly when
that one call of `sendfile` is not made or does not send the whole of it.  The
stream of a directory whose page is built stays open in any case; those that
`scanDir` opens are closed.
-/

namespace MyFileServer

open Execution CallLog

/-! ## What the handler opens -/

def SysCall.UsesDescriptor : SysCall → Prop
  | .openFile _ | .lseek _ _ | .opendir _ | .closedir _ => True
  | _ => False

section Calls

variable {env : Environment}

theorem sysEvents_append (before calls more : List SysCall) :
    sysEvents env before (calls ++ more) =
      sysEvents env before calls ++ sysEvents env (before ++ calls) more := by
  induction calls generalizing before with
  | nil => simp [sysEvents]
  | cons call calls ih =>
      simp only [List.cons_append, sysEvents, ih (before ++ [call]), List.append_assoc,
        List.nil_append]

theorem sysEvents_eq_nil {before calls : List SysCall}
    (h : ∀ call ∈ calls, ¬ call.UsesDescriptor) : sysEvents env before calls = [] := by
  induction calls generalizing before with
  | nil => rfl
  | cons call calls ih =>
      obtain ⟨hcall, hcalls⟩ := List.forall_mem_cons.mp h
      have hnone : call.fdEvents env before = [] := by
        cases call with
        | openFile path => exact absurd trivial hcall
        | lseek fd offset => exact absurd trivial hcall
        | opendir path => exact absurd trivial hcall
        | closedir path => exact absurd trivial hcall
        | _ => rfl
      rw [sysEvents, hnone, ih hcalls]
      rfl

variable {α β : Type}

/-- If the computation returns from there, its result and its events are
related. -/
def YieldsAt (env : Environment) (before : List SysCall) (Q : α → List FdEvent → Prop)
    (x : Sys α) : Prop :=
  ∀ a, (x before).result = .ok a → Q a (sysEvents env before (x before).calls)

/-- The same, wherever the computation starts. -/
def Yields (env : Environment) (Q : α → List FdEvent → Prop) (x : Sys α) : Prop :=
  ∀ before, YieldsAt env before Q x

theorem yields_pure {Q : α → List FdEvent → Prop} {a : α} (ha : Q a []) :
    Yields env Q (pure a) := by
  intro before b hresult
  rw [← Except.ok.inj hresult]
  exact ha

theorem Yields.mono {Q R : α → List FdEvent → Prop} {x : Sys α} (hx : Yields env Q x)
    (himp : ∀ a events, Q a events → R a events) : Yields env R x :=
  fun before a hresult => himp _ _ (hx before a hresult)

theorem YieldsAt.bind {before : List SysCall} {Q : β → List FdEvent → Prop} {x : Sys α}
    {f : α → Sys β}
    (hf : ∀ a, (x before).result = .ok a →
      YieldsAt env (before ++ (x before).calls)
        (fun b more => Q b (sysEvents env before (x before).calls ++ more)) (f a)) :
    YieldsAt env before Q (x >>= f) := by
  intro b hresult
  obtain ⟨a, ha, hb⟩ := bind_result_eq_ok.mp hresult
  have hcalls : ((x >>= f) before).calls =
      (x before).calls ++ (f a (before ++ (x before).calls)).calls := by
    cases hxb : x before with
    | mk result calls =>
        rw [hxb] at ha
        change result = .ok a at ha
        subst ha
        rw [bind_of_ok hxb]
  rw [hcalls, sysEvents_append]
  exact hf a ha b hb

theorem Yields.bind {R : α → List FdEvent → Prop} {Q : β → List FdEvent → Prop} {x : Sys α}
    {f : α → Sys β} (hx : Yields env R x)
    (hf : ∀ a events, R a events → Yields env (fun b more => Q b (events ++ more)) (f a)) :
    Yields env Q (x >>= f) :=
  fun before => YieldsAt.bind fun a ha => hf a _ (hx before a ha) _

/-- The descriptors are left alone. -/
def Quiet (x : Sys α) : Prop :=
  ∀ before, Emits (fun call => ¬ call.UsesDescriptor) x before

theorem Quiet.yields {x : Sys α} (hx : Quiet x) {R : α → Prop} (hresult : Returning R x) :
    Yields env (fun a events => R a ∧ events = []) x :=
  fun before a ha => ⟨hresult before a ha, sysEvents_eq_nil (hx before)⟩

theorem Quiet.bind {Q : β → List FdEvent → Prop} {x : Sys α} (hx : Quiet x) {f : α → Sys β}
    (hf : ∀ a, Yields env Q (f a)) : Yields env Q (x >>= f) := by
  have hany : Returning (fun _ => True) x := fun _ _ _ => trivial
  refine (hx.yields hany).bind ?_
  intro a events hevents
  rw [hevents.2]
  exact hf a

theorem quiet_lift (x : Exec α) : Quiet (lift x) := by
  intro before
  simp

theorem quiet_history : Quiet history := by
  intro before
  simp

theorem quiet_stat (path : Bytes) : Quiet (env.stat path) :=
  fun _ => (emits_perform _ _).mpr id

theorem yields_openFile (path : Bytes) :
    Yields env (fun fd events => events = openedEvents fd) (env.openFile path) := by
  intro before fd hresult
  have hfd : env.descriptor before (cstr path) = fd := Except.ok.inj hresult
  change sysEvents env before [.openFile path] = _
  simp [sysEvents, SysCall.fdEvents, hfd]

theorem yields_lseek (fd offset : ℤ) :
    Yields env (fun _ events => events = usedEvents fd) (lseek fd offset) := by
  intro before a _
  change sysEvents env before [.lseek fd offset] = _
  simp [sysEvents, SysCall.fdEvents]

theorem yields_opendir (path : Bytes) :
    Yields env (fun entries events => events =
      if entries.isSome then [.opened (.directory (cstr path))] else []) (env.opendir path) := by
  intro before entries hresult
  have hentries : env.entries before (cstr path) = entries := Except.ok.inj hresult
  change sysEvents env before [.opendir path] = _
  simp [sysEvents, SysCall.fdEvents, hentries]

theorem yields_closedir (path : Bytes) :
    Yields env (fun _ events => events = [.closed (.directory (cstr path))])
      (closedir path) := by
  intro before a _
  rfl

end Calls

/-! ## Responses with a file -/

/-- The handle of a descriptor that `open` answers. -/
def fileHandles (fd : ℤ) : List Handle := if fd = -1 then [] else [.file fd]

/-- What a response with the descriptor has open before it is sent. -/
def OpensFor (fd : ℤ) (events : List FdEvent) : Prop := Leaves (fileHandles fd) events

theorem opensFor_openedEvents (fd : ℤ) : OpensFor fd (openedEvents fd) := by
  unfold OpensFor openedEvents fileHandles
  split_ifs
  · exact leaves_nil
  · exact leaves_opened _

theorem OpensFor.used {fd : ℤ} {events : List FdEvent} (h : OpensFor fd events) :
    OpensFor fd (events ++ usedEvents fd) := by
  unfold OpensFor fileHandles at h ⊢
  unfold usedEvents
  split_ifs at h ⊢
  · exact h.append leaves_nil
  · exact h.used

section Responses

variable {env : Environment} {server : FileServer} {req : HttpRequest} {path : Bytes}
  {res : HttpResponse}

theorem yields_sendRegular (len : ℤ) :
    Yields env (fun response events => OpensFor response.fd_ events)
      (sendRegular env req path len res) := by
  refine (yields_openFile path).bind ?_
  intro fd events hevents
  have hopens := opensFor_openedEvents fd
  rw [← hevents] at hopens
  dsimp only
  split
  · refine (quiet_lift _).bind fun bounds => ?_
    refine (yields_lseek fd bounds.1).bind ?_
    intro _ more hmore
    refine yields_pure ?_
    rw [hmore, List.append_nil]
    exact hopens.used
  · refine yields_pure ?_
    rw [List.append_nil]
    exact hopens

theorem quiet_scanEntries (n : ℕ) (fullname : Bytes) (entries : List EntryName) :
    Quiet (scanEntries env n fullname entries) := by
  intro before
  induction entries generalizing fullname before with
  | nil => simp [scanEntries]
  | cons entry entries ih =>
      rw [emits_scanEntries_cons]
      split
      · exact ih fullname before
      · exact fun copied _ => ⟨id, ih copied _⟩

/-- The walk of a directory closes the stream that it opens. -/
theorem yields_scanDir (path : Bytes) :
    Yields env (fun _ events => Leaves [] events) (scanDir env path) := by
  refine quiet_history.bind fun before => ?_
  refine (quiet_lift _).bind fun start => ?_
  refine (yields_opendir path).bind ?_
  rintro (_ | entries) _ rfl
  · exact yields_pure leaves_nil
  · refine (quiet_scanEntries _ _ _).bind fun _ => ?_
    refine (yields_closedir path).mono ?_
    rintro _ _ rfl
    exact (leaves_opened _).closed

/-- The page of a directory leaves its stream open. -/
theorem yields_fileListPage (dirName : Bytes) (row : Bytes → Bytes) :
    Yields env (fun _ events => Leaves [.directory (cstr dirName)] events)
      (fileListPage env dirName row) := by
  unfold fileListPage getFileVec
  rw [bind_assoc]
  refine (yields_opendir dirName).bind ?_
  rintro (_ | entries) _ rfl
  · intro before page hpage
    obtain ⟨_, habsurd, _⟩ := lift_bind_result_eq_ok.mp hpage
    cases habsurd
  · rw [pure_bind]
    have hstream : Quiet (env.ifstream filelistPath) := fun _ => (emits_perform _ _).mpr id
    refine hstream.bind fun file => ?_
    exact ((quiet_lift _).yields (R := fun _ => True) fun _ _ _ => trivial).mono
      fun _ _ h => by rw [h.2, List.append_nil]; exact leaves_opened _

theorem Yields.pure {α β : Type} {Q : α → List FdEvent → Prop} {R : β → List FdEvent → Prop}
    {x : Sys α} (hx : Yields env Q x) {f : α → β}
    (himp : ∀ a events, Q a events → R (f a) events) :
    Yields env R (x >>= fun a => Pure.pure (f a)) := by
  refine hx.bind ?_
  intro a events hevents
  refine yields_pure ?_
  rw [List.append_nil]
  exact himp a events hevents

theorem Yields.and_returning {α : Type} {Q : α → List FdEvent → Prop} {R : α → Prop}
    {x : Sys α} (hx : Yields env Q x) (hresult : Returning R x) :
    Yields env (fun a events => R a ∧ Q a events) x :=
  fun before a ha => ⟨hresult before a ha, hx before a ha⟩

/-- What a response has open before it is sent: the directory whose page it
carries, or its file. -/
def LeavesFor (listed : Option Bytes) (fd : ℤ) (events : List FdEvent) : Prop :=
  match listed with
  | some dir => fd = -1 ∧ Leaves [.directory (cstr dir)] events
  | none => OpensFor fd events

/-- The directory whose page is built for a path that is there. -/
def listedDirectory (req : HttpRequest) (path : Bytes) (buffer : FileStatus) : Option Bytes :=
  if buffer.kind = .directory ∧ (cstr req.path_).length ≠ 1 then some (showPath path) else none

/-- A login that is granted shows the work path. -/
def listedLogin (server : FileServer) (req : HttpRequest) : Route → Option Bytes
  | .login =>
      match accountForm req.m_string with
      | .ok form =>
          if server.users.lookup form.1 = some form.2 then some server.workPath_ else none
      | .error _ => none
  | _ => none

theorem opensFor_page {response : HttpResponse} {events : List FdEvent} (hres : res.fd_ = -1)
    (hhtml : IsHtml res response) (hevents : Leaves [] events) :
    OpensFor response.fd_ events := by
  obtain ⟨code, html, rfl⟩ := hhtml
  have hfd : (sendHtml code html res).fd_ = -1 := hres
  unfold OpensFor fileHandles
  rwa [if_pos hfd]

theorem yields_sendExisting (hres : res.fd_ = -1) (buffer : FileStatus) :
    Yields env (fun response events =>
        LeavesFor (listedDirectory req path buffer) response.fd_ events)
      (sendExisting env req path buffer res) := by
  unfold sendExisting listedDirectory
  cases hkind : buffer.kind with
  | directory =>
      unfold sendDirectory
      by_cases hroot : (cstr req.path_).length = 1
      · simp only [hroot, if_true, ne_eq, not_true_eq_false, and_false, if_false]
        exact yields_pure (opensFor_page hres (isHtml_sendHtml _ _) leaves_nil)
      · simp only [hroot, if_false, ne_eq, not_false_eq_true, and_self, if_true]
        refine (yields_scanDir path).bind ?_
        intro _ scanned hscanned
        refine (yields_fileListPage (showPath path) _).bind ?_
        intro html listed hlisted
        refine yields_pure ⟨hres, ?_⟩
        rw [List.append_nil]
        exact hscanned.append hlisted
  | regular => exact yields_sendRegular _
  | other => exact yields_pure (opensFor_page hres (isHtml_sendHtml _ _) leaves_nil)

theorem yields_download :
    Yields env (fun response events => OpensFor response.fd_ events)
      (download env req path res) := by
  refine (quiet_lift _).bind fun target => ?_
  have hsize : Quiet (statSize env target) := by
    intro before call hcall
    rw [statSize_apply, List.mem_singleton] at hcall
    rw [hcall]
    exact id
  refine hsize.bind fun len => ?_
  refine (yields_openFile target).bind ?_
  intro fd events hevents
  refine yields_pure ?_
  rw [hevents, List.append_nil]
  exact opensFor_openedEvents fd

/-- A route without a list closes all that it opens. -/
theorem yields_page {route : Route} (hdownload : route ≠ .download) (hlogin : route ≠ .login) :
    Yields env (fun _ events => Leaves [] events)
      (takeRoute env server req path res route) := by
  have hquiet : ∀ {x : Sys (FileServer × HttpResponse)}, Quiet x →
      Yields env (fun _ events => Leaves [] events) x := by
    intro x hx
    refine (hx.yields (R := fun _ => True) fun _ _ _ => trivial).mono ?_
    rintro _ _ ⟨_, rfl⟩
    exact leaves_nil
  unfold takeRoute
  cases route with
  | signUp => exact yields_pure leaves_nil
  | signIn => exact yields_pure leaves_nil
  | notFound => exact yields_pure leaves_nil
  | login => exact absurd rfl hlogin
  | register =>
      apply hquiet
      intro before
      simp only [emits_lift_bind, emits_register]
      exact fun _ _ _ _ => id
  | download => exact absurd rfl hdownload
  | upload =>
      refine Yields.pure ?_ fun _ _ h => h
      refine (quiet_lift _).bind fun f_name => ?_
      have hstore : Quiet (storeFile env (uploadDir path req ++ f_name)
          (uploadContent req.m_string)) := by
        intro before
        rw [emits_storeFile]
        exact ⟨id, fun _ => id⟩
      exact hstore.bind fun _ => (yields_scanDir _).pure fun _ _ h => h
  | delete =>
      refine Yields.pure ?_ fun _ _ h => h
      refine (quiet_lift _).bind fun target => ?_
      refine (quiet_stat target).bind fun _ => ?_
      have hremove : Quiet (removeFile target) := fun _ => (emits_perform _ _).mpr id
      exact hremove.bind fun _ => (yields_scanDir _).pure fun _ _ h => h

theorem yields_login (hres : res.fd_ = -1) {form : Bytes × Bytes} :
    Yields env (fun response events => LeavesFor
        (if server.users.lookup form.1 = some form.2 then some server.workPath_ else none)
        response.fd_ events)
      (login env server form.1 form.2 res) := by
  unfold login
  by_cases hknown : server.users.lookup form.1 = some form.2
  · simp only [if_pos hknown]
    exact (yields_fileListPage server.workPath_ _).pure fun _ _ h => ⟨hres, h⟩
  · simp only [if_neg hknown]
    exact yields_pure (opensFor_page hres (isHtml_sendHtml _ _) leaves_nil)

theorem yields_takeRoute (hres : res.fd_ = -1) (route : Route) :
    Yields env (fun built events =>
        LeavesFor (listedLogin server req route) built.2.fd_ events)
      (takeRoute env server req path res route) := by
  by_cases hdownload : route = .download
  · subst hdownload
    exact yields_download.pure fun _ _ h => h
  by_cases hlogin : route = .login
  · subst hlogin
    intro before
    refine YieldsAt.bind ?_
    intro form hform
    have hlisted : listedLogin server req .login =
        if server.users.lookup form.1 = some form.2 then some server.workPath_ else none := by
      change accountForm req.m_string = .ok form at hform
      simp only [listedLogin, hform]
    rw [hlisted]
    have hpage : Yields env (fun built events => LeavesFor
        (if server.users.lookup form.1 = some form.2 then some server.workPath_ else none)
        built.2.fd_ events)
        (login env server form.1 form.2 res >>= fun response => pure (server, response)) :=
      (yields_login hres).pure fun _ _ h => h
    exact hpage _
  · have hnone : listedLogin server req route = none := by
      cases route with
      | login => exact absurd rfl hlogin
      | _ => rfl
    rw [hnone]
    refine ((yields_page hdownload hlogin).and_returning (returning_takeRoute hdownload)).mono ?_
    exact fun _ _ h => opensFor_page hres h.1 h.2

end Responses

namespace FileRequest

/-- The directory whose page the request asks for: a directory below the work
path, or the work path after a login. -/
def listed (r : FileRequest) : Option Bytes :=
  if r.req.path_ = ascii "/favicon.ico" then none
  else
    let path := r.server.workPath_ ++ r.req.path_
    match r.env.status r.before (cstr path) with
    | some buffer => listedDirectory r.req path buffer
    | none =>
        match routeOf r.req.path_ with
        | .ok route => listedLogin r.server r.req route
        | .error _ => none

theorem yieldsAt_buildResponse (r : FileRequest) :
    YieldsAt r.env r.before (fun built events => LeavesFor r.listed built.2.fd_ events)
      (buildResponse r.env r.server r.req) := by
  have hfresh : ({ closeConnection_ := r.req.wantsClose } : HttpResponse).fd_ = -1 := rfl
  unfold buildResponse listed
  dsimp only
  split
  · have hicon : ∀ built : FileServer × HttpResponse, built.2.fd_ = -1 →
        YieldsAt r.env r.before (fun built events => LeavesFor none built.2.fd_ events)
          (pure built) := by
      intro built hbuilt
      refine yields_pure ?_ _
      unfold LeavesFor OpensFor fileHandles
      rw [if_pos hbuilt]
      exact leaves_nil
    exact hicon _ rfl
  refine YieldsAt.bind ?_
  intro path hpath
  obtain ⟨_, rfl⟩ := concat_eq_ok.mp hpath
  rw [lift_apply, List.append_nil]
  refine YieldsAt.bind ?_
  intro status hstatus
  have hanswer : r.env.status r.before (cstr (r.server.workPath_ ++ r.req.path_)) = status :=
    Except.ok.inj hstatus
  have hquiet : sysEvents r.env r.before
      (r.env.stat (r.server.workPath_ ++ r.req.path_) r.before).calls = [] :=
    sysEvents_eq_nil (quiet_stat _ r.before)
  rw [hquiet, hanswer]
  cases status with
  | some buffer =>
      have hpage : Yields r.env (fun built events => LeavesFor
          (listedDirectory r.req (r.server.workPath_ ++ r.req.path_) buffer) built.2.fd_ events)
          (sendExisting r.env r.req (r.server.workPath_ ++ r.req.path_) buffer
            { closeConnection_ := r.req.wantsClose } >>= fun response =>
            pure (r.server, response)) :=
        (yields_sendExisting hfresh buffer).pure fun _ _ h => h
      exact hpage _
  | none =>
      refine YieldsAt.bind ?_
      intro route hroute
      change routeOf r.req.path_ = .ok route at hroute
      rw [hroute, lift_apply]
      exact yields_takeRoute hfresh route _

end FileRequest

/-! ## What the connection closes -/

/-- Nothing of the data remains to be written. -/
def Answer.settles (len : ℕ) : Answer → Bool
  | .wrote n => len ≤ n
  | .failed errno => errno.isFault

def Answer.sendsAll (count : ℕ) (file : Bytes) : Answer → Bool
  | .wrote n => count ≤ n && count ≤ file.length
  | .failed _ => false

namespace TcpConnection

def Op.sendsFile : Op → Bool
  | .sendFile _ _ _ _ => true
  | _ => false

variable {c c' : TcpConnection} {data : Bytes} {answer : Answer} {effects : List Effect}

theorem directWrite_closed (c : TcpConnection) (data : Bytes) (answer : Answer) :
    (c.directWrite data answer).effects.filterMap Effect.closed? = [] := by
  unfold directWrite
  split
  · cases answer with
    | wrote n =>
        dsimp only
        split_ifs
        · rfl
        · rfl
    | failed errno => rfl
  · rfl

theorem sendInLoop_closed (h : c.sendInLoop data answer = .ok (c', effects)) :
    effects.filterMap Effect.closed? = [] := by
  have hdirect := c.directWrite_closed data answer
  unfold sendInLoop at h
  by_cases hdown : c.state_ = .kDisconnected
  · rw [if_pos hdown] at h
    cases h
    rfl
  · rw [if_neg hdown] at h
    dsimp only at h
    split_ifs at h
    · obtain ⟨buf, _, hrest⟩ := bind_eq_ok.mp h
      cases hrest
      rw [List.filterMap_append, hdirect]
      rfl
    · obtain ⟨buf, _, hrest⟩ := bind_eq_ok.mp h
      cases hrest
      rw [List.filterMap_append, hdirect]
      rfl
    · cases h
      exact hdirect

theorem shutdownInLoop_closed (c : TcpConnection) :
    c.shutdownInLoop.filterMap Effect.closed? = [] := by
  unfold shutdownInLoop
  split_ifs
  · rfl
  · rfl

theorem handleWrite_closed (c : TcpConnection) (answer : Answer) :
    (c.handleWrite answer).2.filterMap Effect.closed? = [] := by
  have hshut := shutdownInLoop_closed
  unfold handleWrite
  split_ifs
  · cases answer with
    | failed errno => rfl
    | wrote n =>
        dsimp only
        split_ifs
        · exact hshut _
        · rfl
        · exact hshut _
        · rfl
        · rfl
        · rfl
  · rfl

/-- Only `sendFile` touches a descriptor. -/
theorem fdEvents_eq_nil {op : Op} (hop : op.sendsFile = false)
    (h : c.step op = .ok (c', effects)) : c.fdEvents op effects = [] := by
  cases op with
  | sendFile fd count file answer => cases hop
  | send payload answer =>
      unfold step send at h
      dsimp only at h
      split_ifs at h
      · exact sendInLoop_closed h
      · cases h
        rfl
  | shutdown =>
      unfold step shutdown at h
      dsimp only at h
      split_ifs at h
      · cases h
        exact shutdownInLoop_closed _
      · cases h
        rfl
  | handleWrite answer =>
      have hclosed := c.handleWrite_closed answer
      rw [Except.ok.inj h] at hclosed
      exact hclosed

/-- The file is sent and closed in the one call, or it stays open. -/
theorem fdEvents_sendFile (c : TcpConnection) (fd : ℤ) (count : ℕ) (file : Bytes)
    (answer : Answer) :
    c.fdEvents (.sendFile fd count file answer) (c.sendFile fd count file answer).2 =
      if c.state_ = .kConnected ∧ c.idle = true then
        .used (.file fd) :: if answer.sendsAll count file then [.closed (.file fd)] else []
      else [] := by
  unfold fdEvents sendFile
  dsimp only
  by_cases hconnected : c.state_ = .kConnected
  · have hup : c.state_ ≠ .kDisconnected := by
      rw [hconnected]
      decide
    have hidle' : ({ c with sendFd_ := fd, sendLen_ := count } : TcpConnection).idle = c.idle := rfl
    have heffects : ∀ (p : Prop) [Decidable p] (a b : TcpConnection) (l : List Effect),
        (if p then (a, l) else (b, l)).2 = l := by
      intro p _ a b l
      split_ifs <;> rfl
    rw [if_pos hconnected]
    unfold sendFileInLoop
    rw [if_neg hup, hidle']
    by_cases hidle : c.idle = true
    · simp only [if_pos hidle, if_pos (And.intro hconnected hidle)]
      cases answer with
      | failed errno =>
          rw [heffects]
          rfl
      | wrote n =>
          rw [heffects]
          dsimp only
          have hall : count - min n (min count file.length) = 0 ↔
              count ≤ n ∧ count ≤ file.length := by omega
          by_cases hzero : count - min n (min count file.length) = 0
          · have hsent : Answer.sendsAll count file (.wrote n) = true := by
              simp [Answer.sendsAll, hall.mp hzero]
            rw [if_pos hzero, if_pos hsent]
            rfl
          · have hsent : ¬ Answer.sendsAll count file (.wrote n) = true := by
              simpa [Answer.sendsAll] using mt hall.mpr hzero
            rw [if_neg hzero, if_neg hsent]
            rfl
    · simp only [if_neg hidle]
      rw [heffects]
      simp [hidle]
  · simp [hconnected]

/-- What the answer to `write` leaves of a connection that was idle. -/
theorem send_idle (hstate : c.state_ = .kConnected) (hdata : data ≠ [])
    (h : c.send data answer = .ok (c', effects)) :
    c'.state_ = .kConnected ∧
      (c'.idle = true ↔ c.idle = true ∧ answer.settles data.length = true) := by
  have hup : c.state_ ≠ .kDisconnected := by
    rw [hstate]
    decide
  have hlength := List.length_pos_iff.mpr hdata
  have hremains : (c.directWrite data answer).faultError = false ∧
      0 < data.length - (c.directWrite data answer).nwrote ↔
      ¬ (c.idle = true ∧ answer.settles data.length = true) := by
    unfold directWrite
    by_cases hidle : c.idle = true
    · rw [if_pos hidle]
      cases answer with
      | failed errno => simp [hidle, Answer.settles, hlength]
      | wrote n =>
          simp only [hidle, Answer.settles, decide_eq_true_eq, true_and]
          omega
    · rw [if_neg hidle]
      simp [hidle, hlength]
  unfold send at h
  rw [if_pos hstate] at h
  unfold sendInLoop at h
  rw [if_neg hup] at h
  dsimp only at h
  by_cases hrest : (!(c.directWrite data answer).faultError) = true ∧
      0 < data.length - (c.directWrite data answer).nwrote
  · rw [if_pos hrest] at h
    obtain ⟨buf, _, hresult⟩ := bind_eq_ok.mp h
    have hbusy := hremains.mp ⟨by simpa using hrest.1, hrest.2⟩
    cases hresult
    refine ⟨hstate, iff_of_false ?_ hbusy⟩
    simp [idle]
  · rw [if_neg hrest] at h
    cases h
    refine ⟨hstate, ?_⟩
    have hdone : c.idle = true ∧ answer.settles data.length = true := by
      by_contra hnot
      have hmore := hremains.mpr hnot
      exact hrest ⟨by simpa using hmore.1, hmore.2⟩
    exact iff_of_true hdone.1 hdone

end TcpConnection

/-! ## One request -/

/-- The connection is up and idle, the one `write` of the header leaves it
idle, and the one `sendfile` takes the rest of the response. -/
def FileRequest.delivers (r : FileRequest) (c : TcpConnection) (response : HttpResponse) : Bool :=
  c.state_ = .kConnected && c.idle &&
    r.written.settles (response.text (r.order response.headers_)).length &&
    r.sent.sendsAll (toSizeT (response.len_.getD 0)) r.file

/-- What stays open for good. -/
def FileRequest.leaks (r : FileRequest) (c : TcpConnection) (response : HttpResponse) :
    List Handle :=
  match r.listed with
  | some dir => [.directory (cstr dir)]
  | none =>
      if response.needSendFile && !r.delivers c response then [.file response.fd_] else []

namespace ServedConnection

variable {s s' : ServedConnection} {r : FileRequest}

theorem perform_eq_ok {op : TcpConnection.Op} (h : s.perform op = .ok s') :
    ∃ effects, s.conn.step op = .ok (s'.conn, effects) ∧
      s'.ledger = s.ledger ++ s.conn.fdEvents op effects := by
  obtain ⟨⟨conn, effects⟩, hstep, hrest⟩ := bind_eq_ok.mp h
  cases hrest
  exact ⟨effects, hstep, rfl⟩

theorem perform_ledger {op : TcpConnection.Op} (hop : op.sendsFile = false)
    (h : s.perform op = .ok s') : s'.ledger = s.ledger := by
  obtain ⟨effects, hstep, hledger⟩ := perform_eq_ok h
  rw [hledger, TcpConnection.fdEvents_eq_nil hop hstep, List.append_nil]

theorem performAll_ledger {ops : List TcpConnection.Op}
    (hops : ∀ op ∈ ops, op.sendsFile = false)
    (h : s.performAll ops = .ok s') : s'.ledger = s.ledger := by
  induction ops generalizing s with
  | nil =>
      cases h
      rfl
  | cons op ops ih =>
      obtain ⟨next, hfirst, hrest⟩ := bind_eq_ok.mp h
      obtain ⟨hop, hops⟩ := List.forall_mem_cons.mp hops
      rw [ih hops hrest]
      exact perform_ledger hop hfirst

theorem text_ne_nil (response : HttpResponse) (order : Traversal response.headers_) :
    response.text order ≠ [] := by
  simp [HttpResponse.text, Buffer.kCRLF]

theorem closeActions_sendsFile (r : FileRequest) (response : HttpResponse) :
    ∀ op ∈ (closeActions response).map (ConnAction.toOp r), op.sendsFile = false := by
  unfold closeActions
  split_ifs
  · simp [ConnAction.toOp, TcpConnection.Op.sendsFile]
  · simp

/-- What the calls of the connection add for a response with a file. -/
theorem performAll_sendFile {response : HttpResponse} (hfile : response.needSendFile = true)
    (h : s.performAll ((.send (response.text (r.order response.headers_)) ::
      (fileActions response ++ closeActions response)).map (ConnAction.toOp r)) = .ok s') :
    ∃ n, s'.ledger = s.ledger ++ (List.replicate n (.used (.file response.fd_)) ++
      if r.delivers s.conn response then [.closed (.file response.fd_)] else []) := by
  rw [fileActions, if_pos hfile] at h
  obtain ⟨sent, hsend, hrest⟩ := bind_eq_ok.mp h
  obtain ⟨served, hserved, hclose⟩ := bind_eq_ok.mp hrest
  obtain ⟨effects, hstep, hledger⟩ := perform_eq_ok hserved
  have heffects := congrArg Prod.snd (Except.ok.inj hstep)
  have hsent : sent.ledger = s.ledger := perform_ledger rfl hsend
  have hevents := TcpConnection.fdEvents_sendFile sent.conn response.fd_
    (toSizeT (response.len_.getD 0)) r.file r.sent
  rw [heffects] at hevents
  rw [performAll_ledger (closeActions_sendsFile r response) hclose, hledger, hsent]
  change ∃ n, s.ledger ++ sent.conn.fdEvents (.sendFile _ _ _ _) _ = _
  rw [hevents]
  obtain ⟨sendEffects, hsendStep, _⟩ := perform_eq_ok hsend
  by_cases hconnected : s.conn.state_ = .kConnected
  · obtain ⟨hstate, hidle⟩ := TcpConnection.send_idle hconnected (text_ne_nil _ _) hsendStep
    rw [hstate]
    by_cases hready : sent.conn.idle = true
    · obtain ⟨hbefore, hsettles⟩ := hidle.mp hready
      refine ⟨1, ?_⟩
      rw [if_pos ⟨rfl, hready⟩]
      simp [FileRequest.delivers, hconnected, hbefore, hsettles]
    · refine ⟨0, ?_⟩
      have hnot : r.delivers s.conn response = false := by
        rw [Bool.eq_false_iff]
        intro hdelivers
        simp only [FileRequest.delivers, Bool.and_eq_true] at hdelivers
        exact hready (hidle.mpr ⟨hdelivers.1.1.2, hdelivers.1.2⟩)
      rw [if_neg (fun h => hready h.2), hnot]
      rfl
  · refine ⟨0, ?_⟩
    have hnot : r.delivers s.conn response = false := by
      simp [FileRequest.delivers, hconnected]
    have hskip : s.conn.step (.send (response.text (r.order response.headers_)) r.written) =
        .ok (s.conn, []) := if_neg hconnected
    have hsame : s.conn = sent.conn :=
      congrArg Prod.fst (Except.ok.inj (hskip.symm.trans hsendStep))
    rw [← hsame, if_neg (fun h => hconnected h.1), hnot]
    rfl

/-- The calls of `onRequest` are those that build the response. -/
theorem request_eq_ok (h : s.request r = .ok s') :
    ∃ server response events,
      (buildResponse r.env r.server r.req r.before).result = .ok (server, response) ∧
      LeavesFor r.listed response.fd_ events ∧
      ({ s with ledger := s.ledger ++ events } : ServedConnection).performAll
        ((.send (response.text (r.order response.headers_)) ::
          (fileActions response ++ closeActions response)).map (ConnAction.toOp r)) = .ok s' := by
  obtain ⟨⟨server, actions⟩, houtcome, hperform⟩ := bind_eq_ok.mp h
  obtain ⟨response, hbuilt, hsent⟩ := onRequest_eq_ok houtcome
  have hcalls : (onRequest r.env r.order r.server r.req r.before).calls =
      (buildResponse r.env r.server r.req r.before).calls := by
    cases houtcome : buildResponse r.env r.server r.req r.before with
    | mk result calls =>
        rw [houtcome] at hbuilt
        change result = .ok (server, response) at hbuilt
        subst hbuilt
        have hlift : (lift (sendResponse r.order response) : Sys _) (r.before ++ calls) =
            ⟨.ok actions, []⟩ := by
          rw [lift_apply, hsent]
        unfold onRequest
        rw [bind_of_ok houtcome, bind_of_ok hlift]
        simp
  refine ⟨server, response, _, hbuilt, r.yieldsAt_buildResponse _ hbuilt, ?_⟩
  rw [← sendResponse_spec hsent, ← hcalls]
  exact hperform

/-- A request that lists a directory leaves its stream open; one with a file
leaves the file open, or nothing. -/
theorem request_ledger (h : s.request r = .ok s') :
    ∃ server response,
      (buildResponse r.env r.server r.req r.before).result = .ok (server, response) ∧
      ∀ live, openAfter [] s.ledger = some live →
        openAfter [] s'.ledger = some (r.leaks s.conn response ++ live) := by
  obtain ⟨server, response, events, hbuilt, hleaves, hperform⟩ := request_eq_ok h
  refine ⟨server, response, hbuilt, ?_⟩
  intro live hlive
  have hpage (hnone : response.fd_ = -1) : s'.ledger = s.ledger ++ events := by
    have hfile : response.needSendFile = false := by
      simp [HttpResponse.needSendFile, hnone]
    rw [fileActions, if_neg (by simp [hfile]), List.nil_append, List.map_cons] at hperform
    exact performAll_ledger
      (List.forall_mem_cons.mpr ⟨rfl, closeActions_sendsFile r response⟩) hperform
  unfold FileRequest.leaks
  cases hlisted : r.listed with
  | some dir =>
      rw [hlisted] at hleaves
      rw [hpage hleaves.1, openAfter_append, hlive, Option.bind_some, hleaves.2 live]
  | none =>
      rw [hlisted] at hleaves
      change Leaves (fileHandles response.fd_) events at hleaves
      by_cases hnone : response.fd_ = -1
      · rw [fileHandles, if_pos hnone] at hleaves
        rw [hpage hnone, openAfter_append, hlive, Option.bind_some, hleaves live]
        simp [HttpResponse.needSendFile, hnone]
      · have hfile : response.needSendFile = true := by
          simp [HttpResponse.needSendFile, hnone]
        rw [fileHandles, if_neg hnone] at hleaves
        have hopened := hleaves live
        rw [List.singleton_append] at hopened
        obtain ⟨m, hledger⟩ := performAll_sendFile hfile hperform
        rw [hledger, openAfter_append, openAfter_append, hlive, Option.bind_some, hopened,
          Option.bind_some, openAfter_append,
          openAfter_replicate_used List.mem_cons_self, Option.bind_some, hfile]
        by_cases hdelivers : r.delivers s.conn response = true
        · simp [openAfter, hdelivers]
        · simp [openAfter, hdelivers]

/-! ## Runs -/

/-- A request lists no directory, and if it opens a file, it sends the whole of
it in the one call. -/
def ClosesAll (s : ServedConnection) : FileInput → Prop
  | .request r => r.listed = none ∧ ∀ server response,
      (buildResponse r.env r.server r.req r.before).result = .ok (server, response) →
        response.needSendFile = true → r.delivers s.conn response = true
  | _ => True

theorem step_eq_ok {input : FileInput} (hs : s.destroyed = false)
    (h : s.apply input = .ok s') : s.step input = .ok (s', ()) := by
  unfold step
  rw [hs, h]
  rfl

theorem apply_of_step {input : FileInput} (h : s.step input = .ok (s', ())) :
    s.apply input = .ok s' := by
  unfold step at h
  split_ifs at h
  cases hs : s.apply input with
  | ok next =>
      rw [hs] at h
      cases h
      rfl
  | error fault =>
      rw [hs] at h
      cases h

theorem closesAll_request_iff {r : FileRequest} {server : FileServer} {response : HttpResponse}
    (hbuilt : (buildResponse r.env r.server r.req r.before).result = .ok (server, response)) :
    s.ClosesAll (.request r) ↔ r.leaks s.conn response = [] := by
  unfold ClosesAll FileRequest.leaks
  cases hlisted : r.listed with
  | some dir => simp [hlisted]
  | none =>
      simp only [hlisted, true_and, ite_eq_right_iff, List.cons_ne_nil, imp_false]
      constructor
      · intro hall
        have hfile := hall server response hbuilt
        cases hneed : response.needSendFile with
        | false => simp
        | true => simp [hfile hneed]
      · intro hnot server' response' hbuilt' hneed
        cases Except.ok.inj (hbuilt.symm.trans hbuilt')
        simpa [hneed] using hnot

/-- What one input leaves open. -/
theorem step_ledger {input : FileInput} (h : s.step input = .ok (s', ())) {live : List Handle}
    (hlive : openAfter [] s.ledger = some live) :
    ∃ live', openAfter [] s'.ledger = some live' ∧
      (live' = [] ↔ live = [] ∧ s.ClosesAll input) := by
  have happly := apply_of_step h
  have hsame : s'.ledger = s.ledger → s.ClosesAll input → ∃ live',
      openAfter [] s'.ledger = some live' ∧ (live' = [] ↔ live = [] ∧ s.ClosesAll input) := by
    intro hledger hdelivers
    refine ⟨live, ?_, (and_iff_left hdelivers).symm⟩
    rw [hledger]
    exact hlive
  cases input with
  | request r =>
      obtain ⟨server, response, hbuilt, hledger⟩ := request_ledger happly
      refine ⟨_, hledger live hlive, ?_⟩
      rw [closesAll_request_iff hbuilt, List.append_eq_nil_iff, and_comm]
  | badRequest written =>
      have hquiet : ∀ op ∈ [TcpConnection.Op.send MyFileServer.badRequest written, .shutdown],
          op.sendsFile = false := by
        simp [TcpConnection.Op.sendsFile]
      exact hsame (performAll_ledger hquiet happly) trivial
  | handleWrite answer => exact hsame (perform_ledger rfl happly) trivial
  | handleClose =>
      cases happly
      exact hsame rfl trivial
  | connectDestroyed =>
      cases happly
      refine hsame ?_ trivial
      unfold connectDestroyed
      split_ifs
      · rfl
      · rfl

/-- All that a connection opens is closed once and for all exactly when no
request lists a directory, and every request that opens a file sends it in its
one call of `sendfile`. -/
theorem closedOnce_iff {inputs : List FileInput} {final : ServedConnection}
    {calls : List (Call ServedConnection FileInput Unit)}
    (hrun : run step {} inputs = .ok (final, calls)) :
    ClosedOnce final.ledger ↔ ∀ call ∈ calls, call.pre.ClosesAll call.input := by
  have hstep : ∀ (past : List (Call ServedConnection FileInput Unit)) (s : ServedConnection)
      (input : FileInput) (next : ServedConnection) (output : Unit),
      (∃ live, openAfter [] s.ledger = some live ∧
        (live = [] ↔ ∀ call ∈ past, call.pre.ClosesAll call.input)) → True →
      s.step input = .ok (next, output) →
      ∃ live, openAfter [] next.ledger = some live ∧
        (live = [] ↔ ∀ call ∈ past ++ [⟨s, input, output⟩], call.pre.ClosesAll call.input) := by
    intro past s input next output hs _ hnext
    obtain ⟨live, hlive, hpast⟩ := hs
    obtain ⟨live', hlive', hiff⟩ := step_ledger hnext hlive
    refine ⟨live', hlive', ?_⟩
    rw [hiff, hpast]
    simp [or_imp, forall_and]
  have hstart : ∃ live, openAfter [] ({} : ServedConnection).ledger = some live ∧
      (live = [] ↔ ∀ call ∈ ([] : List (Call ServedConnection FileInput Unit)),
        call.pre.ClosesAll call.input) :=
    ⟨[], rfl, iff_of_true rfl (fun _ habsurd => nomatch habsurd)⟩
  obtain ⟨live, hlive, hiff⟩ := run_history hstep hrun hstart fun _ _ => trivial
  rw [List.nil_append] at hiff
  unfold ClosedOnce
  rw [hlive, ← hiff, Option.some.injEq]

end ServedConnection

/-! ## A file of ten bytes -/

theorem ten_lt : 10 < 2 ^ 63 := by
  decide

def tenBytes : FileStatus := ⟨.regular, 10, ten_lt⟩

/-- A request for the file, with what the one call of `sendfile` answers. -/
def tenByteRequest (order : (headers : Headers) → Traversal headers) (sent : Answer) :
    FileRequest where
  env := { status := fun _ _ => some tenBytes, descriptor := fun _ _ => 5 }
  before := []
  server := { workPath_ := ascii "/srv" }
  order := order
  req := { path_ := ascii "/a.txt" }
  written := .wrote (2 ^ 31)
  sent := sent
  file := List.replicate 10 0

def tenByteResponse : HttpResponse :=
  sendWhole 10 (describeFile 5 { path_ := ascii "/a.txt" } { closeConnection_ := false })

section TenBytes

variable (order : (headers : Headers) → Traversal headers) (sent : Answer)

theorem buildResponse_tenByte :
    (buildResponse (tenByteRequest order sent).env (tenByteRequest order sent).server
      (tenByteRequest order sent).req []).result =
        .ok ((tenByteRequest order sent).server, tenByteResponse) := by
  have hfit : (ascii "/srv").length + (ascii "/a.txt").length ≤ maxSize :=
    (lt_maxSize (by decide)).le
  have hpage : (tenByteRequest order sent).req.path_ ≠ ascii "/favicon.ico" := by
    change ascii "/a.txt" ≠ ascii "/favicon.ico"
    decide
  unfold buildResponse
  rw [if_neg hpage]
  unfold setResponseBody
  apply lift_bind_result_eq_ok.mpr
  refine ⟨_, concat_eq_ok.mpr ⟨hfit, rfl⟩, ?_⟩
  rfl

theorem listed_tenByte : (tenByteRequest order sent).listed = none := rfl

theorem leaks_tenByte : (tenByteRequest order sent).leaks TcpConnection.established
    tenByteResponse =
      if (tenByteRequest order sent).delivers TcpConnection.established tenByteResponse then []
      else [.file 5] := by
  have hneed : tenByteResponse.needSendFile = true := by decide
  unfold FileRequest.leaks
  rw [listed_tenByte, hneed]
  cases (tenByteRequest order sent).delivers TcpConnection.established tenByteResponse with
  | false => rfl
  | true => rfl

def tenByteLines : List HeaderLine :=
  [(ascii "Content-Length", ascii "10"), (ascii "Accept-Ranges", ascii "bytes"),
    (ascii "Content-Type", ascii "text/plain;charset=utf-8")]

theorem headerLines_tenByte : headerLines tenByteResponse.headers_ = tenByteLines := rfl

theorem pieces_tenByte (order : Traversal tenByteResponse.headers_) :
    ((tenByteResponse.pieces order).map List.length).sum < 1000 := by
  rw [HttpResponse.sum_length_pieces order headerLines_tenByte]
  decide +kernel

theorem length_text_tenByte (order : Traversal tenByteResponse.headers_) :
    (tenByteResponse.text order).length < 1000 := by
  rw [← HttpResponse.flatten_pieces, List.length_flatten]
  exact pieces_tenByte order

/-- The request ends with the one call of `sendfile`. -/
theorem request_tenByte :
    ∃ served : ServedConnection,
      ({} : ServedConnection).request (tenByteRequest order sent) = .ok served ∧
      served.destroyed = false := by
  obtain ⟨text, htext⟩ : ∃ text, text = tenByteResponse.text (order _) := ⟨_, rfl⟩
  have hshort := length_text_tenByte (order tenByteResponse.headers_)
  have hpieces := pieces_tenByte (order tenByteResponse.headers_)
  have hrequest : (onRequest (tenByteRequest order sent).env order
      (tenByteRequest order sent).server (tenByteRequest order sent).req []).result =
        .ok ((tenByteRequest order sent).server, [.send text, .sendFile 5 10]) := by
    rw [onRequest_of_short (buildResponse_tenByte order sent) (by omega), htext]
    rfl
  -- the header leaves the connection as it was
  have hheader : TcpConnection.established.step (.send text (.wrote (2 ^ 31))) =
      .ok (TcpConnection.established, [.write text]) := by
    have hidle : TcpConnection.established.idle = true := by decide
    have hall : text.length ≤ 2147483648 := by
      rw [htext]
      omega
    have hdirect : TcpConnection.established.directWrite text (.wrote (2 ^ 31)) =
        { nwrote := text.length, effects := [.write text] } := by
      unfold TcpConnection.directWrite
      rw [if_pos hidle]
      simp [hall, TcpConnection.established]
    change TcpConnection.established.sendInLoop text (.wrote (2 ^ 31)) = _
    unfold TcpConnection.sendInLoop
    rw [if_neg (by decide), hdirect]
    simp only [Nat.sub_self, Nat.lt_irrefl, and_false, if_false]
    rfl
  exact ⟨_, bind_eq_ok.mpr ⟨_, hrequest, bind_eq_ok.mpr ⟨_, bind_eq_ok.mpr ⟨_, hheader, rfl⟩,
    rfl⟩⟩, rfl⟩

/-- The client leaves after the request. -/
theorem run_tenByte :
    ∃ served : ServedConnection,
      ({} : ServedConnection).request (tenByteRequest order sent) = .ok served ∧
      run ServedConnection.step {}
        [.request (tenByteRequest order sent), .handleClose, .connectDestroyed] =
          .ok (served.shut.connectDestroyed,
            [⟨{}, .request (tenByteRequest order sent), ()⟩, ⟨served, .handleClose, ()⟩,
              ⟨served.shut, .connectDestroyed, ()⟩]) := by
  obtain ⟨served, hrequest, hdestroyed⟩ := request_tenByte order sent
  refine ⟨served, hrequest, ?_⟩
  have hfirst : ({} : ServedConnection).step (.request (tenByteRequest order sent)) =
      .ok (served, ()) := ServedConnection.step_eq_ok rfl hrequest
  have hsecond : served.step .handleClose = .ok (served.shut, ()) :=
    ServedConnection.step_eq_ok hdestroyed rfl
  have hthird : served.shut.step .connectDestroyed = .ok (served.shut.connectDestroyed, ()) :=
    ServedConnection.step_eq_ok hdestroyed rfl
  rw [run_cons_eq_ok]
  refine ⟨_, _, _, hfirst, ?_, rfl⟩
  rw [run_cons_eq_ok]
  refine ⟨_, _, _, hsecond, ?_, rfl⟩
  rw [run_cons_eq_ok]
  exact ⟨_, _, _, hthird, rfl, rfl⟩

end TenBytes

theorem ledger_shut_connectDestroyed (s : ServedConnection) :
    s.shut.connectDestroyed.ledger = s.ledger := by
  unfold ServedConnection.connectDestroyed
  split_ifs
  · rfl
  · rfl

/-- All ten bytes are sent. -/
theorem ServedConnection.closedOnce_iff_tenByte :
    ∃ final calls,
      run ServedConnection.step {}
        [.request (tenByteRequest storedOrder (.wrote 10)), .handleClose, .connectDestroyed] =
          .ok (final, calls) ∧
      final.destroyed = true ∧ ClosedOnce final.ledger ∧
      (ClosedOnce final.ledger ↔ ∀ call ∈ calls, call.pre.ClosesAll call.input) := by
  obtain ⟨served, hrequest, hrun⟩ := run_tenByte storedOrder (.wrote 10)
  obtain ⟨server, response, hbuilt, hledger⟩ := ServedConnection.request_ledger hrequest
  cases Except.ok.inj ((buildResponse_tenByte storedOrder (.wrote 10)).symm.trans hbuilt)
  have hdelivers : (tenByteRequest storedOrder (.wrote 10)).delivers TcpConnection.established
      tenByteResponse = true := by
    have hten : toSizeT (tenByteResponse.len_.getD 0) = 10 := by decide
    have hidle : TcpConnection.established.idle = true := by decide
    have hstate : TcpConnection.established.state_ = .kConnected := rfl
    have hshort : (tenByteResponse.text (storedOrder _)).length ≤ 2147483648 := by
      have hlength := length_text_tenByte (storedOrder tenByteResponse.headers_)
      omega
    simp [FileRequest.delivers, hten, hidle, hstate, hshort, tenByteRequest, Answer.sendsAll,
      Answer.settles]
  have hclosed : ClosedOnce served.ledger := by
    have hlive := hledger [] rfl
    rw [leaks_tenByte, if_pos hdelivers] at hlive
    exact hlive
  refine ⟨_, _, hrun, rfl, ?_, ServedConnection.closedOnce_iff hrun⟩
  rw [ledger_shut_connectDestroyed]
  exact hclosed

/-- Four of the ten bytes are sent and the client leaves. -/
theorem ServedConnection.not_closedOnce_tenByte :
    ∃ final calls,
      run ServedConnection.step {}
        [.request (tenByteRequest storedOrder (.wrote 4)), .handleClose, .connectDestroyed] =
          .ok (final, calls) ∧
      final.destroyed = true ∧ openAfter [] final.ledger = some [.file 5] ∧
      ¬ ClosedOnce final.ledger := by
  obtain ⟨served, hrequest, hrun⟩ := run_tenByte storedOrder (.wrote 4)
  obtain ⟨server, response, hbuilt, hledger⟩ := ServedConnection.request_ledger hrequest
  cases Except.ok.inj ((buildResponse_tenByte storedOrder (.wrote 4)).symm.trans hbuilt)
  have hleaks : ¬ (tenByteRequest storedOrder (.wrote 4)).delivers TcpConnection.established
      tenByteResponse = true := by
    have hten : toSizeT (tenByteResponse.len_.getD 0) = 10 := by decide
    simp [FileRequest.delivers, hten, tenByteRequest, Answer.sendsAll]
  have hopen : openAfter [] served.ledger = some [.file 5] := by
    have hlive := hledger [] rfl
    rw [leaks_tenByte, if_neg hleaks] at hlive
    exact hlive
  have hfinal := ledger_shut_connectDestroyed served
  refine ⟨_, _, hrun, rfl, hfinal ▸ hopen, ?_⟩
  rw [ClosedOnce, hfinal, hopen]
  decide

end MyFileServer
