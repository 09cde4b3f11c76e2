import SchedulerLm.Lifecycle

/-!
# Tokens

The tokens of the service: those it requires of a request (`AuthMiddleware`), and
those it sends along with a webhook call (`fire_task_webhook`). Tokens are symbolic:
what is signed with the secret of the service cannot be made without it.

A party receives the tokens of webhook calls, and sends requests to the service with
these, or with tokens it makes up (`listening`). The service distinguishes the two
kinds of tokens by a claim, `purpose`, that nothing reads: a request gets through with
the token of a webhook call as long as that has not expired (`noAuthority_iff`).
-/

namespace SchedulerLm

open Transition Relational

/-! ## Signing and verifying -/

/-- The values of claims. -/
inductive ClaimValue
  | str (value : String)
  | int (value : Int)
  deriving DecidableEq

/-- The payload of a token. -/
abbrev Payload := List (String × ClaimValue)

/-- `payload.update(claims)`. -/
def Payload.update (payload claims : Payload) : Payload :=
  (payload.filter fun claim => (claims.lookup claim.1).isNone) ++ claims

/-- A token: a payload, signed with a secret by an algorithm, or another text. -/
inductive Token
  | signed (secret algorithm : String) (payload : Payload)
  | other (text : String)
  deriving DecidableEq

/-- The settings of the tokens. -/
structure AuthSettings where
  jwtSecret : String
  jwtAlgorithm : String

/-- `exp` is before the time `now`, or now; it is in seconds. -/
def Payload.expired (now : Instant) (payload : Payload) : Bool :=
  match payload.lookup "exp" with
  | some (.int exp) => exp * second ≤ now
  | some (.str _) => true
  | none => false

/-- `decode_token`, or `none` for a `PyJWTError`: the token is signed with the secret,
    has not expired, and its `sub` is a text, if there is one. -/
def decodeToken (now : Instant) (auth : AuthSettings) : Token → Option Payload
  | .signed secret algorithm payload =>
    if secret = auth.jwtSecret ∧ algorithm = auth.jwtAlgorithm ∧ payload.expired now = false then
      match payload.lookup "sub" with
      | some (.int _) => none
      | _ => some payload
    else none
  | .other _ => none

/-- `encode_token`: `exp` is cut to seconds. -/
def encodeToken (now : Instant) (auth : AuthSettings) (sub : String) (expiresIn : Int)
    (extraClaims : Payload) : Token :=
  .signed auth.jwtSecret auth.jwtAlgorithm
    (Payload.update [("sub", .str sub), ("exp", .int ((now + expiresIn) / second))] extraClaims)

/-! ## Requests -/

/-- The `Authorization` header of a request. -/
inductive Authorization
  | missing
  | bearer (token : Token)
  | other (text : String)
  deriving DecidableEq

/-- `PUBLIC_PATHS`. -/
def publicPaths : List String := ["/health", "/docs", "/openapi.json", "/redoc"]

/-- `AuthMiddleware.dispatch`, up to `call_next`: the request gets through, as a user
    if its path is not public, or is refused with 401 and a detail. -/
def dispatch (now : Instant) (auth : AuthSettings) (path : String) (authorization : Authorization) :
    Except String (Option UserId) :=
  if path ∈ publicPaths then .ok none
  else
    match authorization with
    | .bearer token =>
      match decodeToken now auth token with
      | none => .error "Invalid token"
      | some payload =>
        match payload.lookup "sub" with
        | some (.str userId) =>
          if userId = "" then .error "Missing sub claim" else .ok (some userId)
        | some (.int n) => if n = 0 then .error "Missing sub claim" else .ok (some (toString n))
        | none => .error "Missing sub claim"
    | _ => .error "Missing bearer token"

/-- The path is that of a route of the API. -/
def IsApiPath (path : String) : Prop := "/api/v1".toList <+: path.toList

instance (path : String) : Decidable (IsApiPath path) := inferInstanceAs (Decidable (_ <+: _))

/-! ## Webhook calls -/

/-- The settings `fire_task_webhook` reads. -/
structure ExecutorSettings where
  auth : AuthSettings
  webhookJwtTtlMinutes : Int

/-- The token of a webhook call, made at `now`. -/
def webhookToken (settings : ExecutorSettings) (now : Instant) (get : Get) : Token :=
  encodeToken now settings.auth get.userId (settings.webhookJwtTtlMinutes * (60 * second))
    [("task_id", .str (toString get.taskId)), ("purpose", .str "webhook")]

/-- The second the token of a webhook call made at `now` expires at. -/
def webhookExpiry (settings : ExecutorSettings) (now : Instant) : Int :=
  (now + settings.webhookJwtTtlMinutes * (60 * second)) / second

/-! ## A party -/

/-- The service, and a party: the tokens it has received, and the paths of its
    requests that got through, with the users they got through as. -/
structure World where
  pool : Pool Service Proc
  received : List Token
  passed : List (String × Option UserId)

/-- A step of the service, whose token, if it sends one, is made at `now`, or a
    request of the party. -/
inductive WorldAct
  | service (now : Instant) (a : Act Arrival Choice)
  | request (now : Instant) (path : String) (authorization : Authorization)

/-- The party can send the header: it cannot sign with the secret. -/
def Authorization.Known (secret : String) (received : List Token) : Authorization → Bool
  | .bearer (.signed key algorithm payload) =>
    .signed key algorithm payload ∈ received ∨ key ≠ secret
  | _ => true

variable (lib : Crontab) (settings : ExecutorSettings)

/-- The service and the party. It receives the tokens of all the calls; a party that
    receives some of them only does not use the others. -/
def listening : System World WorldAct where
  step w
    | .service now a => ((interleaving lib).step w.pool a).map fun pool =>
      { w with
        pool := pool
        received := w.received ++
          (pool.shared.sent.drop w.pool.shared.sent.length).map (webhookToken settings now) }
    | .request now path authorization =>
      if authorization.Known settings.auth.jwtSecret w.received then
        match dispatch now settings.auth path authorization with
        | .error _ => some w
        | .ok user => some { w with passed := w.passed ++ [(path, user)] }
      else none

/-- The service before any request, and a party that has received nothing. -/
def World.init : World := ⟨⟨.init, []⟩, [], []⟩

/-- No request of the party to the API has got through. -/
def NoAuthority (w : World) : Prop := ∀ p ∈ w.passed, ¬IsApiPath p.1

/-- The token has not expired. -/
def Token.Unexpired (now : Instant) : Token → Prop
  | .signed _ _ payload => payload.expired now = false
  | .other _ => False

/-- The party does not send a token it has received to the API before it expires. -/
def Withheld (w : World) : WorldAct → Prop
  | .request now path (.bearer token) =>
    ¬(IsApiPath path ∧ token ∈ w.received ∧ token.Unexpired now)
  | _ => True

variable {lib settings} {now : Instant} {path : String} {s : Pool Service Proc} {get : Get}
  {token : Token}

/-! ## What the middleware lets through -/

theorem not_mem_publicPaths (h : IsApiPath path) : path ∉ publicPaths := by
  intro hmem
  rcases List.mem_cons.1 hmem with rfl | hmem
  · exact absurd h (by decide)
  rcases List.mem_cons.1 hmem with rfl | hmem
  · exact absurd h (by decide)
  rcases List.mem_pair.1 hmem with rfl | rfl
  · exact absurd h (by decide)
  · exact absurd h (by decide)

/-- A request to the API gets through with a token only that is signed with the
    secret and has not expired. -/
theorem signed_of_dispatch {auth : AuthSettings} {authorization : Authorization}
    {user : Option UserId} (hapi : IsApiPath path)
    (h : dispatch now auth path authorization = .ok user) :
    ∃ algorithm payload, authorization = .bearer (.signed auth.jwtSecret algorithm payload) ∧
      payload.expired now = false := by
  simp only [dispatch, if_neg (not_mem_publicPaths hapi)] at h
  rcases authorization with _ | token | text
  · exact absurd h (by simp)
  · rcases token with ⟨secret, algorithm, payload⟩ | text
    · by_cases hvalid : secret = auth.jwtSecret ∧ algorithm = auth.jwtAlgorithm ∧
          payload.expired now = false
      · obtain ⟨rfl, -, hexp⟩ := hvalid
        exact ⟨algorithm, payload, rfl, hexp⟩
      · simp [decodeToken, if_neg hvalid] at h
    · simp [decodeToken] at h
  · exact absurd h (by simp)

/-- Until it expires, the token of a webhook call is let through, as the owner of the
    task. -/
theorem dispatch_webhookToken {t : Instant} (hapi : IsApiPath path) (howner : get.userId ≠ "")
    (hexp : now < webhookExpiry settings t * second) :
    dispatch now settings.auth path (.bearer (webhookToken settings t get)) =
      .ok (some get.userId) := by
  have hexpired : Payload.expired now [("sub", .str get.userId),
    ("exp", .int (webhookExpiry settings t)),
      ("task_id", .str (toString get.taskId)), ("purpose", .str "webhook")] = false :=
    decide_eq_false (not_le.2 hexp)
  have hdecode : decodeToken now settings.auth (webhookToken settings t get) =
      some [("sub", .str get.userId), ("exp", .int (webhookExpiry settings t)),
        ("task_id", .str (toString get.taskId)), ("purpose", .str "webhook")] :=
    if_pos ⟨rfl, rfl, hexpired⟩
  rw [dispatch, if_neg (not_mem_publicPaths hapi)]
  simp only [hdecode]
  exact if_neg howner

/-! ## What the service sends -/

/-- A row a process is to send a webhook call for. -/
def Proc.target : Proc → Option ScheduledTask
  | .calling _ _ target => some target
  | .executing task => some task
  | _ => none

/-- Every task belongs to a user. -/
structure Owning (s : Pool Service Proc) : Prop where
  rowsAre : RowsAre (fun task => task.userId ≠ "") s
  targets : ∀ p ∈ s.procs, ∀ task, p.target = some task → task.userId ≠ ""

theorem owning_init : Owning ⟨.init, []⟩ where
  rowsAre := @rowsAre_of_run .never _ (fun _ => owner_of_created) (fun _ _ _ h => h) _ _ .nil
  targets := by simp

/-- A move sends nothing, or one call for the target of its process. -/
theorem Moves.sent {s s' : Service} {p : Proc} {o : Option Proc} {k : Choice}
    (h : Moves lib s p k s' o) : s'.sent = s.sent ∨
      ∃ task source answer, p.target = some task ∧
        s' = s.send (fireTaskWebhook source task answer) := by
  cases h with
  | committed hc => exact .inl (commit_eq_some hc).2.2.2.1
  | fireCommitted hc => exact .inl (commit_eq_some hc).2.2.2.1
  | ran hj => exact .inl (runJob_frame hj).2.2.1
  | runSent => exact .inr ⟨_, _, _, rfl, rfl⟩
  | fireSent => exact .inr ⟨_, _, _, rfl, rfl⟩
  | _ => exact .inl rfl

/-- The target of what a process goes on as is a row. -/
theorem Moves.target {s s' : Service} {p q : Proc} {k : Choice} (h : Moves lib s p k s' (some q))
    {task : ScheduledTask} (hq : q.target = some task) : ∃ id, s.row id = some task := by
  generalize ho : some q = o at h
  cases h with
  | called hrow =>
    obtain rfl := Option.some.inj ho
    exact ⟨_, Option.some.inj hq ▸ hrow⟩
  | fireRead hload =>
    obtain rfl := Option.some.inj ho
    exact ⟨_, Option.some.inj hq ▸ (loadActive_eq_some.1 hload).1⟩
  | committed | ran =>
    split at ho
    · exact absurd ho (by simp)
    · obtain rfl := Option.some.inj ho
      exact absurd hq (by simp [Proc.target])
  | @fireCommitted _ remove =>
    rcases remove with _ | taskId
    · exact absurd ho (by simp)
    · obtain rfl := Option.some.inj ho
      exact absurd hq (by simp [Proc.target])
  | created | read | handled | runRead | runSent | fireSent =>
    obtain rfl := Option.some.inj ho
    exact absurd hq (by simp [Proc.target])
  | _ => exact absurd ho (by simp)

/-- The calls a step sends are for tasks with an owner. -/
theorem Owning.step {s s' : Pool Service Proc} {a : Act Arrival Choice} (h : Owning s)
    (hs : (interleaving lib).step s a = some s') :
    Owning s' ∧ ∃ gets, s'.shared.sent = s.shared.sent ++ gets ∧ ∀ get ∈ gets,
      get.userId ≠ "" := by
  have hrows := h.rowsAre.step (fun _ => owner_of_created) (fun _ _ _ h => h) hs
  cases Program.moved_of_step hs with
  | @arrive i o ha hprocs =>
    -- What arrives has no target yet, and sends nothing.
    obtain ⟨hsent, hnew⟩ : s'.shared.sent = s.shared.sent ∧ ∀ q, o = some q → q.target = none := by
      cases i with
      | request user request =>
        obtain ⟨hshared, rfl⟩ := Prod.mk.inj (Option.some.inj ha)
        exact ⟨hshared ▸ rfl, fun q hq => Option.some.inj hq ▸ rfl⟩
      | fire taskId now coalesced =>
        obtain ⟨⟨f, after⟩, hpick, ha⟩ := Option.map_eq_some_iff.1 ha
        obtain ⟨rfl, rfl⟩ := Prod.mk.inj ha
        obtain ⟨schedule, left, -, -, hafter⟩ := pickUp_eq_some hpick
        exact ⟨by rw [hafter], fun q hq => Option.some.inj hq ▸ rfl⟩
    refine ⟨⟨hrows, fun q hq task htarget => ?_⟩, [], by rw [hsent, List.append_nil], by simp⟩
    rw [hprocs, List.mem_append, Option.mem_toList] at hq
    rcases hq with hq | hq
    · exact absurd ((hnew q hq).symm.trans htarget) (by simp)
    · exact h.targets q hq task htarget
  | @move n k p o rest _ hm hp hp' =>
    have hmoves := moves_of_move hm
    refine ⟨⟨hrows, fun q hq task htarget => ?_⟩, ?_⟩
    · rcases (mem_of_perm_toList hp').1 hq with rfl | hq
      · obtain ⟨id, hrow⟩ := hmoves.target htarget
        exact h.rowsAre.rows id task hrow
      · exact h.targets q ((mem_of_perm_cons hp).2 (.inr hq)) task htarget
    · rcases hmoves.sent with hsent | ⟨task, source, answer, htarget, hsent⟩
      · exact ⟨[], by rw [hsent, List.append_nil], by simp⟩
      · refine ⟨[fireTaskWebhook source task answer], by rw [hsent]; rfl, fun get hget => ?_⟩
        obtain rfl := List.mem_singleton.1 hget
        exact h.targets p ((mem_of_perm_cons hp).2 (.inl rfl)) task htarget

/-- What holds as long as the party withholds the tokens it has received: they are
    those of calls for tasks with an owner, and nothing has got through. -/
structure Guarded (settings : ExecutorSettings) (w : World) : Prop where
  owning : Owning w.pool
  received : ∀ token ∈ w.received, ∃ t get, token = webhookToken settings t get ∧ get.userId ≠ ""
  noAuthority : NoAuthority w

theorem guarded_init : Guarded settings .init :=
  ⟨owning_init, by simp [World.init], by simp [World.init, NoAuthority]⟩

theorem Guarded.step {w w' : World} {a : WorldAct} (h : Guarded settings w) (hw : Withheld w a)
    (hs : (listening lib settings).step w a = some w') : Guarded settings w' := by
  cases a with
  | service now a =>
    obtain ⟨pool, hpool, rfl⟩ := Option.map_eq_some_iff.1 hs
    obtain ⟨howning, gets, hsent, hgets⟩ := h.owning.step hpool
    refine ⟨howning, fun token htoken => ?_, h.noAuthority⟩
    rcases List.mem_append.1 htoken with htoken | htoken
    · exact h.received token htoken
    · rw [hsent, List.drop_left] at htoken
      obtain ⟨get, hget, rfl⟩ := List.mem_map.1 htoken
      exact ⟨now, get, rfl, hgets get hget⟩
  | request now path authorization =>
    obtain ⟨hknown, hs⟩ := Option.ite_none_right_eq_some.1 hs
    rcases hd : dispatch now settings.auth path authorization with detail | user <;>
      rw [hd] at hs <;>
      obtain rfl := Option.some.inj hs
    · exact h
    · refine ⟨h.owning, h.received, fun p hp hapi => ?_⟩
      rcases List.mem_append.1 hp with hp | hp
      · exact h.noAuthority p hp hapi
      · obtain rfl := List.mem_singleton.1 hp
        -- The token is signed with the secret: it has been received.
        obtain ⟨algorithm, payload, rfl, hexp⟩ := signed_of_dispatch hapi hd
        have hmem : Token.signed settings.auth.jwtSecret algorithm payload ∈ w.received := by
          simpa [Authorization.Known] using hknown
        exact hw ⟨hapi, hmem, hexp⟩

theorem not_noAuthority_of_step {w w' : World} {a : WorldAct} (h : Guarded settings w)
    (hw : ¬Withheld w a) (hs : (listening lib settings).step w a = some w') : ¬NoAuthority w' := by
  rcases a with ⟨now, a⟩ | ⟨now, path, _ | token | text⟩
  · exact absurd trivial hw
  · exact absurd trivial hw
  · obtain ⟨hapi, hmem, hunexpired⟩ := not_not.1 hw
    obtain ⟨t, get, rfl, howner⟩ := h.received token hmem
    have hexp : now < webhookExpiry settings t * second := by
      have hnot := of_decide_eq_false hunexpired
      exact not_le.1 hnot
    obtain ⟨-, hs⟩ := Option.ite_none_right_eq_some.1 hs
    rw [dispatch_webhookToken hapi howner hexp] at hs
    obtain rfl := Option.some.inj hs
    exact fun hall => hall (path, some get.userId) (by simp) hapi
  · exact absurd trivial hw

/-- The tokens of webhook calls let a party use the API in no state of a run iff, in
    each step, it does not send one to it that has not expired. -/
theorem noAuthority_iff {as : List WorldAct} {w : World}
    (h : (listening lib settings).Run .init as w) :
    (∀ bs v, bs <+: as → (listening lib settings).Run .init bs v → NoAuthority v) ↔
      (listening lib settings).RunWith Withheld .init as w :=
  System.holds_iff_runWith guarded_init (fun _ h => h.noAuthority)
    (fun _ _ _ h hw hs => h.step hw hs)
    (fun _ _ _ h hw hs => not_noAuthority_of_step h hw hs) h

/-- The settings by default, with some secret. -/
def ExecutorSettings.sample : ExecutorSettings := ⟨⟨"secret", "HS256"⟩, 5⟩

/-- A task is created, and executed at once. -/
def execution : List WorldAct :=
  creation.map (.service 0) ++
    [.service 0 (.arrive (.fire 1 0 0)), .service 0 (.move 0 .read),
      .service 0 (.move 0 (.send (.response 200) 1))]

/-- The token of that execution. -/
def executionToken : Token :=
  webhookToken .sample 0 (fireTaskWebhook .scheduled
    (.sample 1 "alice" (.interval 60 minute_pos) none)
    (.response 200))

/-- The party lists the tasks with the token it has received, at `now`. -/
def replay (now : Instant) : List WorldAct :=
  execution ++ [.request now "/api/v1/tasks" (.bearer executionToken)]

/-- Once the token has expired, it is refused. -/
theorem noAuthority_replay : ∃ w, (listening .never .sample).Run .init (replay 300000000) w ∧
    w.received = [executionToken] ∧ NoAuthority w := by
  obtain ⟨w, hw, hreceived⟩ :
    ∃ w, (listening .never .sample).exec .init (replay 300000000) = some w ∧
      w.received = [executionToken] := ⟨_, rfl, rfl⟩
  have hrun : (listening .never .sample).RunWith Withheld .init (replay 300000000) w := by
    refine (System.runWith_of_exec (D := fun a => ∀ now path token,
      a = .request now path (.bearer token) → ¬token.Unexpired now) ?_ hw).mono ?_
    · intro a ha now path token he
      obtain rfl := he
      have hlast : WorldAct.request now path (.bearer token) =
          .request 300000000 "/api/v1/tasks" (.bearer executionToken) := by
        simpa [replay, execution, creation] using ha
      obtain ⟨rfl, -, htoken⟩ := WorldAct.request.inj hlast
      obtain rfl := Authorization.bearer.inj htoken
      exact fun h => absurd (show true = false from h) (by simp)
    · intro w a ha
      rcases a with _ | ⟨now, path, _ | token | text⟩
      · trivial
      · trivial
      · exact fun h => ha now path token rfl h.2.2
      · trivial
  exact ⟨w, hrun.run, hreceived, (noAuthority_iff hrun.run).2 hrun _ w List.prefix_rfl hrun.run⟩

/-- The tokens of webhook calls would carry no authority: with one, the party lists the
    tasks of its owner. -/
theorem not_noAuthority : ¬∀ (lib : Crontab) (settings : ExecutorSettings) (as : List WorldAct)
    (w : World), (listening lib settings).Run .init as w → NoAuthority w := by
  intro h
  obtain ⟨w, hw, hpassed⟩ : ∃ w, (listening .never .sample).exec .init (replay 0) = some w ∧
      w.passed = [("/api/v1/tasks", some "alice")] := ⟨_, rfl, rfl⟩
  have hrun := System.runWith_of_exec (D := fun _ => True) (fun _ _ => trivial) hw
  exact h _ _ _ w hrun ("/api/v1/tasks", some "alice") (by rw [hpassed]; simp) (by decide)

end SchedulerLm
