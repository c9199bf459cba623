import XdsControlPlane.RequestHandlers
import XdsControlPlane.SotwTraffic
import XdsControlPlane.PublicationOrder
import XdsControlPlane.DeltaRoutePush

/-!
The admin APIs of Chapters 2, 3 and 4 (`handle_admin`): request handlers in front of the
control plane. Whatever requests come, in whatever order their handlers and the ADS
streams take their steps, an answer that names a version names one that was advertised
while the request was under way, and a request that comes after another one was answered
gets a later version.
-/
namespace AdminApis
open ExecutableRuns SharedCells EnvoyMessages NumberedCalls RequestHandlers

/-- The methods that HTTP defines; any other one is an extension. -/
inductive Method where
  | options
  | get
  | post
  | put
  | delete
  | head
  | trace
  | connect
  | patch
  | extension : String → Method
  deriving DecidableEq, Repr

/-- What `handle_admin` reads of a request: the method, and the path of the URI. -/
structure HttpRequest where
  method : Method
  path : String
  deriving DecidableEq, Repr

inductive StatusCode where
  | ok
  | notFound
  | internalServerError
  deriving DecidableEq, Repr

structure HttpResponse where
  status : StatusCode
  contentType : String
  body : String
  deriving DecidableEq, Repr

def text (status : StatusCode) (body : String) : HttpResponse := ⟨status, "text/plain", body⟩

/- Chapter 2 -/

section Pushes
open SotwSnapshots SotwServer SotwConvergence SotwRollback SotwTraffic

def wordOf : PushKind → String
  | .good => "good"
  | .broken => "broken"

/-- `push_good` or `push_broken`, which return the version that they take. -/
def push (kind : PushKind) : Plan World ControlTask SotwServer.Call Snapshot HttpResponse :=
  .call (.push kind) (fun w => kind.snapshot (versionLabel (fetchAddOne w.version)) w.upstreamIp)
    fun snap t => match t with
      | .push .done => some (text .ok ("pushed " ++ wordOf kind ++ " " ++ snap.version ++ "\n"))
      | _ => none

def Pushes.status (snap : Snapshot) (w : World) : String :=
  "advertised=" ++ snap.version ++ " last_good=" ++ w.lastGood.version ++ "\n"

def Pushes.handleAdmin (q : HttpRequest) :
    Plan World ControlTask SotwServer.Call Snapshot HttpResponse :=
  if q.method = .post ∧ q.path = "/push/good" then push .good
  else if q.method = .post ∧ q.path = "/push/broken" then push .broken
  else if q.path = "/status" then
    .read (fun w => w.advertised.borrow) fun snap w => text .ok (Pushes.status snap w)
  else .refuse (text .notFound "routes: POST /push/good, POST /push/broken, GET /status\n")

def Pushes.api : Front server HttpRequest Unit Snapshot HttpResponse where
  plan := Pushes.handleAdmin
  outside _ := .openStream
  succeeded
    | .push .done => true
    | _ => false

def carried : ControlTask → Option Snapshot
  | .push (.numbered _ snap) => some snap
  | .push (.stored snap) => some snap
  | _ => none

theorem handle_admin_cases {q : HttpRequest} {plan} (planned : Pushes.handleAdmin q = plan) :
    (∃ kind, plan = push kind ∧ q = ⟨.post, "/push/" ++ wordOf kind⟩) ∨
    (q.path = "/status" ∧ plan =
      .read (fun w => w.advertised.borrow) fun snap w => text .ok (Pushes.status snap w)) ∨
    ((∀ kind, q ≠ ⟨.post, "/push/" ++ wordOf kind⟩) ∧ q.path ≠ "/status" ∧ plan =
      .refuse (text .notFound "routes: POST /push/good, POST /push/broken, GET /status\n")) := by
  obtain ⟨method, path⟩ := q
  unfold Pushes.handleAdmin at planned
  split_ifs at planned with good broken status
  · obtain ⟨rfl, rfl⟩ := good
    exact Or.inl ⟨.good, planned.symm, rfl⟩
  · obtain ⟨rfl, rfl⟩ := broken
    exact Or.inl ⟨.broken, planned.symm, rfl⟩
  · exact Or.inr (Or.inl ⟨status, planned.symm⟩)
  · refine Or.inr (Or.inr ⟨?_, status, planned.symm⟩)
    rintro kind same
    cases kind <;> cases same <;> simp_all [wordOf]

def Pushes.showing : Showing Pushes.api where
  shown w := w.advertised.value
  carries := carried
  reads q first reply planned := by
    rcases handle_admin_cases planned with ⟨kind, isPush, _⟩ | ⟨_, isRead⟩ | ⟨_, _, isRefusal⟩
    · cases isPush
    · cases isRead
      rfl
    · cases isRefusal
  begins q a promised reply w planned := by
    rcases handle_admin_cases planned with ⟨kind, isPush, _⟩ | ⟨_, isRead⟩ | ⟨_, _, isRefusal⟩
    · cases isPush
      exact ⟨rfl, rfl⟩
    · cases isRead
    · cases isRefusal
  stepped w t a w' t' moved := by
    rcases task_step moved with ⟨p, p', rfl, rfl, step⟩ | ⟨s, s', rfl, rfl, step⟩
    · cases step with
      | store snap => exact ⟨rfl, Or.inl ⟨rfl, Or.inl rfl⟩⟩
      | publishBroken snap => exact ⟨rfl, Or.inr ⟨rfl, rfl⟩⟩
      | publishGood snap => exact ⟨rfl, Or.inr ⟨rfl, rfl⟩⟩
    · exact ⟨rfl, Or.inl ⟨rfl, Or.inl rfl⟩⟩

def Pushes.counting : Counting Pushes.api Snapshot.version versionLabel where
  counter w := w.version
  outside _ _ := rfl
  begins q a promised reply w planned := by
    rcases handle_admin_cases planned with ⟨kind, isPush, _⟩ | ⟨_, isRead⟩ | ⟨_, _, isRefusal⟩
    · cases isPush
      cases kind <;> exact ⟨rfl, rfl⟩
    · cases isRead
    · cases isRefusal
  stepped w t a w' t' moved := by
    rcases task_step moved with ⟨p, p', rfl, rfl, step⟩ | ⟨s, s', rfl, rfl, step⟩
    · cases step <;> rfl
    · exact (stream_step_frame step).2.1

/-- What the answer to request `k` may be. A push took its version at one moment of the
    request, and its snapshot was advertised at a later one; of the status the second half
    is read later than the first. -/
inductive Pushes.Answers (ip : String) (es : Pushes.api.Events) (k : Nat) :
    HttpRequest → HttpResponse → Prop where
  | pushed (kind : PushKind) (w w' : World) (moments : Pushes.api.During ⟨startup ip, []⟩ es k w w')
      (advertised : w'.advertised.value = kind.snapshot (versionLabel (fetchAddOne w.version)) ip) :
      Answers ip es k ⟨.post, "/push/" ++ wordOf kind⟩
        (text .ok ("pushed " ++ wordOf kind ++ " " ++ versionLabel (fetchAddOne w.version) ++ "\n"))
  | status (q : HttpRequest) (w w' : World) (v : String) (path : q.path = "/status")
      (moments : Pushes.api.During ⟨startup ip, []⟩ es k w w') (good : w'.lastGood = .good v ip) :
      Answers ip es k q
        (text .ok ("advertised=" ++ w.advertised.value.version ++ " last_good=" ++ v ++ "\n"))
  | unknown (q : HttpRequest) (noPush : ∀ kind, q ≠ ⟨.post, "/push/" ++ wordOf kind⟩)
      (noStatus : q.path ≠ "/status") :
      Answers ip es k q
        (text .notFound "routes: POST /push/good, POST /push/broken, GET /status\n")

theorem kind_version (kind : PushKind) (v ip : String) : (kind.snapshot v ip).version = v := by
  cases kind <;> rfl

theorem last_good_good {ip : String} {es : List Step} {st : State}
    (run : exec server.next (start ip) es = some st) : ∃ v, st.shared.lastGood = .good v ip := by
  have world := (server_ok_exec run (start_ok ip)).shared
  obtain ⟨v, broken, built⟩ := world.built _ world.lastGood
  have faultless := (targets_good_run run).shared
  rw [built, faulty_iff, Bool.not_eq_true] at faultless
  exact ⟨v, by rw [built, faultless, upstream_fixed run]; rfl⟩

def pushAndStatus : Pushes.api.Events :=
  [.spawn (.request ⟨.post, "/push/broken"⟩), .spawn (.request ⟨.get, "/status"⟩),
    .step 0 .handle, .step 0 (.inner .proceed), .step 1 .handle, .step 0 .handle, .step 1 .handle]

def Pushes.Pushed (st : Pushes.api.State) (k : Nat) (snap : Snapshot) : Prop :=
  ∃ kind, st.tasks[k]? = some (.handler (.answered ⟨.post, "/push/" ++ wordOf kind⟩ (some snap)
    (text .ok ("pushed " ++ wordOf kind ++ " " ++ snap.version ++ "\n"))))

theorem pushed_number {st : Pushes.api.State} {k : Nat} {snap : Snapshot}
    (pushed : Pushes.Pushed st k snap) :
    ∃ u, st.tasks[k]? = some u ∧ Pushes.api.number u = some snap := by
  obtain ⟨kind, found⟩ := pushed
  exact ⟨_, found, by cases kind <;> rfl⟩

/-- Of fewer than 2^64 - 1 requests and streams: no two pushes are answered with one version, and
    a push that is asked for after another one was answered is answered with a later version. -/
theorem pushes_answered_in_order {ip : String} {es fs : Pushes.api.Events}
    {st st' : Pushes.api.State} (run : exec Pushes.api.program.next ⟨startup ip, []⟩ es = some st)
    (more : exec Pushes.api.program.next st fs = some st') (few : st'.tasks.length + 1 < 2 ^ 64) :
    (∀ i j snap snap', Pushes.Pushed st' i snap → Pushes.Pushed st' j snap' →
      snap.version = snap'.version → i = j) ∧
    ∀ i j snap snap', Pushes.Pushed st i snap → st.tasks.length ≤ j → Pushes.Pushed st' j snap' →
      Older versionLabel snap.version snap'.version := by
  constructor
  · intro i j snap snap' first second same
    obtain ⟨u, foundU, numberU⟩ := pushed_number first
    obtain ⟨v, foundV, numberV⟩ := pushed_number second
    have distinct : Pushes.api.Distinct Snapshot.version st' :=
      numbers_distinct (C := Pushes.counting) version_label_injective rfl
        (exec_append_some.mpr ⟨st, run, more⟩) few
    exact distinct i j u v snap snap' foundU foundV numberU numberV same
  · intro i j snap snap' first later second
    obtain ⟨u, foundU, numberU⟩ := pushed_number first
    obtain ⟨v, foundV, numberV⟩ := pushed_number second
    exact later_request_higher (C := Pushes.counting) rfl run more few foundU numberU later foundV
      numberV

def firstPush : Pushes.api.Events :=
  [.spawn (.request ⟨.post, "/push/good"⟩), .step 0 .handle, .step 0 (.inner .proceed),
    .step 0 (.inner .proceed), .step 0 .handle]

def secondPush : Pushes.api.Events :=
  [.spawn (.request ⟨.post, "/push/broken"⟩), .step 1 .handle, .step 1 (.inner .proceed),
    .step 1 .handle]

theorem second_push_answered_in_order :
    ∃ st st' snap snap', exec Pushes.api.program.next ⟨startup "10.0.0.1", []⟩ firstPush = some st ∧
      exec Pushes.api.program.next st secondPush = some st' ∧ Pushes.Pushed st 0 snap ∧
      Pushes.Pushed st' 1 snap' ∧ Older versionLabel snap.version snap'.version := by
  obtain ⟨st, st', snap, snap', run, more, few, first, later, second⟩ :
      ∃ st st' snap snap', exec Pushes.api.program.next ⟨startup "10.0.0.1", []⟩ firstPush = some st ∧
        exec Pushes.api.program.next st secondPush = some st' ∧ st'.tasks.length + 1 < 2 ^ 64 ∧
        Pushes.Pushed st 0 snap ∧ st.tasks.length ≤ 1 ∧ Pushes.Pushed st' 1 snap' :=
    ⟨_, _, _, _, rfl, rfl, by decide, ⟨.good, rfl⟩, by decide, ⟨.broken, rfl⟩⟩
  exact ⟨st, st', snap, snap', run, more, first, second,
    (pushes_answered_in_order run more few).2 0 1 snap snap' first later second⟩

end Pushes

/- Chapter 3 -/

section Rotations
open TlsSnapshots TlsServer

/-- `mintError` gives the text of the error where the rotation to a version fails. -/
def Rotations.handleAdmin (mintError : String → String) (q : HttpRequest) :
    Plan Control ControlTask TlsServer.Call String HttpResponse :=
  if q.method = .post ∧ q.path = "/rotate" then
    .call .rotate (fun w => versionLabel (fetchAddOne w.version)) fun v t => match t with
      | .rotate .done => some (text .ok ("rotated certificate, now " ++ v ++ "\n"))
      | .rotate .failed => some (text .internalServerError ("error: " ++ mintError v ++ "\n"))
      | _ => none
  else if q.path = "/status" then
    .read (fun w => w.advertised.borrow.version) fun v _ => text .ok ("advertised=" ++ v ++ "\n")
  else .refuse (text .notFound "routes: POST /rotate, GET /status\n")

def Rotations.api (mintError : String → String) :
    Front server HttpRequest Unit String HttpResponse where
  plan := Rotations.handleAdmin mintError
  outside _ := .openStream
  succeeded
    | .rotate .done => true
    | _ => false

def carriedVersion : ControlTask → Option String
  | .rotate (.numbered v) => some v
  | .rotate (.built snap) => some snap.version
  | _ => none

variable {mintError : String → String}

def Rotations.showing : Showing (Rotations.api mintError) where
  shown w := w.advertised.value.version
  carries := carriedVersion
  reads q first reply planned := by
    simp only [Rotations.api, Rotations.handleAdmin] at planned
    split_ifs at planned
    cases planned
    rfl
  begins q a promised reply w planned := by
    simp only [Rotations.api, Rotations.handleAdmin] at planned
    split_ifs at planned
    cases planned
    exact ⟨rfl, rfl⟩
  stepped w t a w' t' moved := by
    rcases task_step moved with ⟨r, r', rfl, rfl, step⟩ | ⟨s, s', rfl, rfl, rfl, step⟩
    · cases step with
      | build v cert => exact ⟨rfl, Or.inl ⟨rfl, Or.inl rfl⟩⟩
      | fail v => exact ⟨rfl, Or.inl ⟨rfl, Or.inr rfl⟩⟩
      | publish snap => exact ⟨rfl, Or.inr ⟨rfl, rfl⟩⟩
    · exact ⟨rfl, Or.inl ⟨rfl, Or.inl rfl⟩⟩

theorem rotation_acts {v : String} {xs : List Act} {t : ControlTask}
    (ran : Ran server (.rotate (.numbered v)) xs t) :
    (xs = [] ∧ t = .rotate (.numbered v)) ∨
    (∃ cert snap, xs = [.mint (some cert)] ∧ t = .rotate (.built snap)) ∨
    (∃ cert, xs = [.mint (some cert), .publish] ∧ t = .rotate .done) ∨
    (xs = [.mint none] ∧ t = .rotate .failed) := by
  induction ran with
  | start => exact Or.inl ⟨rfl, rfl⟩
  | more xs x t' t'' w w' before moved ih =>
    rcases task_step moved with ⟨r, r', rfl, rfl, step⟩ | ⟨s, s', rfl, rfl, _, _⟩
    · rcases ih with ⟨rfl, same⟩ | ⟨cert, snap, rfl, same⟩ | ⟨cert, rfl, same⟩ | ⟨rfl, same⟩
      · cases same
        cases step with
        | build v cert => exact Or.inr (Or.inl ⟨cert, _, rfl, rfl⟩)
        | fail v => exact Or.inr (Or.inr (Or.inr ⟨rfl, rfl⟩))
      · cases same
        cases step with
        | publish snap => exact Or.inr (Or.inr (Or.inl ⟨cert, rfl, rfl⟩))
      · cases same
        cases step
      · cases same
        cases step
    · rcases ih with ⟨_, same⟩ | ⟨_, _, _, same⟩ | ⟨_, _, same⟩ | ⟨_, same⟩ <;> cases same

/-- No step that handler `k` takes in the run changes what is advertised. -/
def Rotations.Silent (mintError : String → String) (first : Control)
    (es : (Rotations.api mintError).Events) (k : Nat) : Prop :=
  ∀ es₁ x es₂ st st', es = es₁ ++ .step k x :: es₂ →
    exec (Rotations.api mintError).program.next ⟨first, []⟩ es₁ = some st →
    (Rotations.api mintError).program.next st (.step k x) = some st' →
    st'.shared.advertised = st.shared.advertised

theorem failed_mint_silent {w w' : Control} {t t' : ControlTask}
    (moved : server.step w t (.mint none) = some (w', t')) : w'.advertised = w.advertised := by
  rcases task_step moved with ⟨r, r', rfl, rfl, step⟩ | ⟨s, s', rfl, rfl, rfl, _⟩
  · cases step
    rfl
  · rfl

theorem failed_silent {first : Control} {es : (Rotations.api mintError).Events} {k : Nat}
    (unminted : innerActs k es = [.mint none]) : Rotations.Silent mintError first es k := by
  rintro es₁ x es₂ st st' rfl _ h
  rcases next_cases h with ⟨_, eq, _⟩ | ⟨i, y, u, w', u', eq, _, moved, rfl⟩
  · cases eq
  · cases eq
    have step := front_step moved
    cases x with
    | handle =>
      cases step with
      | call q a promised reply planned => cases a <;> rfl
      | _ => rfl
    | inner x =>
      have member : x ∈ innerActs k (es₁ ++ .step k (.inner x) :: es₂) :=
        List.mem_filterMap.mpr ⟨_, List.mem_append_right _ List.mem_cons_self, if_pos rfl⟩
      rw [unminted, List.mem_singleton] at member
      subst member
      cases step with
      | work q n t x g' t' inner => exact failed_mint_silent inner
      | beside t x g' t' inner => exact failed_mint_silent inner

/-- What the answer to request `k` may be: an error is that of a rotation whose certificate
    could not be minted, and that has advertised nothing. -/
inductive Rotations.Answers (mintError : String → String) (first : Control)
    (es : (Rotations.api mintError).Events) (k : Nat) : HttpRequest → HttpResponse → Prop where
  | rotated (w w' : Control) (cert : CertPem)
      (moments : (Rotations.api mintError).During ⟨first, []⟩ es k w w')
      (minted : innerActs k es = [.mint (some cert), .publish])
      (advertised : w'.advertised.value.version = versionLabel (fetchAddOne w.version)) :
      Answers mintError first es k ⟨.post, "/rotate"⟩ (text .ok
        ("rotated certificate, now " ++ versionLabel (fetchAddOne w.version) ++ "\n"))
  | failed (w w' : Control) (moments : (Rotations.api mintError).During ⟨first, []⟩ es k w w')
      (unminted : innerActs k es = [.mint none]) (silent : Rotations.Silent mintError first es k) :
      Answers mintError first es k ⟨.post, "/rotate"⟩ (text .internalServerError
        ("error: " ++ mintError (versionLabel (fetchAddOne w.version)) ++ "\n"))
  | status (q : HttpRequest) (w w' : Control) (path : q.path = "/status")
      (moments : (Rotations.api mintError).During ⟨first, []⟩ es k w w') :
      Answers mintError first es k q
        (text .ok ("advertised=" ++ w.advertised.value.version ++ "\n"))
  | unknown (q : HttpRequest) (noRotate : q ≠ ⟨.post, "/rotate"⟩) (noStatus : q.path ≠ "/status") :
      Answers mintError first es k q (text .notFound "routes: POST /rotate, GET /status\n")

def rotateTwice : (Rotations.api id).Events :=
  [.spawn (.request ⟨.post, "/rotate"⟩), .spawn (.request ⟨.post, "/rotate"⟩), .step 0 .handle,
    .step 1 .handle, .step 0 (.inner (.mint none)), .step 1 (.inner (.mint (some ⟨"chain", "key"⟩))),
    .step 0 .handle, .step 1 (.inner .publish), .step 1 .handle]

end Rotations

/- Chapter 4 -/

section Bumps
open DeltaSnapshots DeltaServer DeltaStream PublicationOrder NumberedPublishing

/-- `bump` returns its number, which is that of the route in the snapshot that it builds. Of
    the status, `borrow` keeps others from sending until the counter is read; the
    handler here lets them. -/
def Bumps.handleAdmin (q : HttpRequest) :
    Plan Control ControlTask DeltaServer.Call Snapshot HttpResponse :=
  if q.method = .post ∧ q.path = "/bump" then
    .call .bump (fun w => .build (fetchAddOne w.routeVersion) w.upstreamIp) fun snap t =>
      match t with
      | .bump .done => some (text .ok ("bumped route to " ++ routeVersionOf snap ++ "\n"))
      | _ => none
  else if q.path = "/status" then
    .read (fun w => w.advertised.borrow) fun snap w => text .ok ("route_version=" ++
      versionLabel w.routeVersion ++ " system_version=" ++ snap.systemVersion ++ "\n")
  else .refuse (text .notFound "routes: POST /bump, GET /status\n")

def Bumps.api : Front server HttpRequest DeltaStream.Cache Snapshot HttpResponse where
  plan := Bumps.handleAdmin
  outside cache := .openStream cache
  succeeded
    | .bump .done => true
    | _ => false

def carriedSnapshot : ControlTask → Option Snapshot
  | .bump (.numbered snap) => some snap
  | _ => none

def Bumps.showing : Showing Bumps.api where
  shown w := w.advertised.value
  carries := carriedSnapshot
  reads q first reply planned := by
    simp only [Bumps.api, Bumps.handleAdmin] at planned
    split_ifs at planned
    cases planned
    rfl
  begins q a promised reply w planned := by
    simp only [Bumps.api, Bumps.handleAdmin] at planned
    split_ifs at planned
    cases planned
    exact ⟨rfl, rfl⟩
  stepped w t a w' t' moved := by
    rcases task_step moved with ⟨snap, rfl, rfl, rfl, rfl⟩ | ⟨s, s', rfl, rfl, rfl, step⟩
    · exact ⟨rfl, Or.inr ⟨rfl, rfl⟩⟩
    · exact ⟨rfl, Or.inl ⟨rfl, Or.inl rfl⟩⟩

def Bumps.counting : Counting Bumps.api routeVersionOf versionLabel where
  counter w := w.routeVersion
  outside _ _ := rfl
  begins q a promised reply w planned := by
    simp only [Bumps.api, Bumps.handleAdmin] at planned
    split_ifs at planned
    cases planned
    exact ⟨rfl, route_version_of_build _ _⟩
  stepped w t a w' t' moved := by
    rcases task_step moved with ⟨snap, rfl, rfl, rfl, rfl⟩ | ⟨s, s', rfl, rfl, rfl, step⟩ <;> rfl

inductive Bumps.Answers (ip : String) (es : Bumps.api.Events) (k : Nat) :
    HttpRequest → HttpResponse → Prop where
  | bumped (w w' : Control) (moments : Bumps.api.During ⟨startup ip, []⟩ es k w w')
      (advertised : w'.advertised.value = .build (fetchAddOne w.routeVersion) ip) :
      Answers ip es k ⟨.post, "/bump"⟩
        (text .ok ("bumped route to " ++ versionLabel (fetchAddOne w.routeVersion) ++ "\n"))
  | status (q : HttpRequest) (w w' : Control) (rv : UInt64) (path : q.path = "/status")
      (moments : Bumps.api.During ⟨startup ip, []⟩ es k w w')
      (advertised : w.advertised.value = .build rv ip) (notBehind : rv ≤ w'.routeVersion) :
      Answers ip es k q (text .ok ("route_version=" ++ versionLabel w'.routeVersion ++
        " system_version=" ++ ("sys-" ++ toString rv.toNat) ++ "\n"))
  | unknown (q : HttpRequest) (noBump : q ≠ ⟨.post, "/bump"⟩) (noStatus : q.path ≠ "/status") :
      Answers ip es k q (text .notFound "routes: POST /bump, GET /status\n")

theorem advertised_not_ahead {ip : String} {es : List Step} {st : State}
    (run : exec server.next (start ip) es = some st) (few : st.tasks.length + 1 < 2 ^ 64) :
    ∃ rv, st.shared.advertised.value = .build rv ip ∧ rv ≤ st.shared.routeVersion := by
  obtain ⟨_, rv, built⟩ := (DeltaRoutePush.server_ok_run run).shared
  have begun : total (bumps.calls st) = es.countP bumps.begun := by
    rw [bumps.total_run (fun _ _ _ => trivial) run]
    exact Nat.zero_add _
  have fewer : total (bumps.calls st) ≤ st.tasks.length := by
    refine Nat.le_trans List.countP_le_length (Nat.le_of_eq ?_)
    rw [marks, Publisher.calls, List.length_map, List.length_map]
  have within : Along server.next bumps.Within (start ip) es := by
    apply bumps.along_within fun _ _ _ => trivial
    have none_ : total (bumps.calls (start ip)) = 0 := rfl
    omega
  have first : (bumps.board (startup ip)).current = versionLabel 1 := route_version_of_build 1 ip
  obtain ⟨k, published⟩ := published_run (published_start rfl first) within run
  have current : routeVersionOf st.shared.advertised.value = versionLabel (UInt64.ofNat k) :=
    published.current
  have counter : st.shared.routeVersion = UInt64.ofNat (total (bumps.calls st) + 1) :=
    published.numbering.counter
  rw [built, route_version_of_build] at current
  obtain ⟨_, below⟩ := spent_bound published.spent
  refine ⟨rv, built, ?_⟩
  rw [version_label_injective current, counter, UInt64.le_iff_toNat_le, UInt64.toNat_ofNat',
    UInt64.toNat_ofNat', Nat.mod_eq_of_lt (by omega), Nat.mod_eq_of_lt (by omega)]
  omega

def statusDuringBump : Bumps.api.Events :=
  [.spawn (.request ⟨.post, "/bump"⟩), .spawn (.request ⟨.get, "/status"⟩), .step 0 .handle,
    .step 1 .handle, .step 1 .handle, .step 0 (.inner .proceed), .step 0 .handle]

end Bumps

end AdminApis
