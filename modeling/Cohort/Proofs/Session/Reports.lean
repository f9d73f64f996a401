import Cohort.Frame.Draft
import Cohort.Session
import Cohort.Wire.Message
import Mathlib.Tactic.Common

/-!
# What a session tells its node

A node hears of a session only once somebody subscribed in the right version and with the right
password. From then on it hears every request in order, and that the session closed as soon as a
log-off, an error, the end of the stream or a stop arrives, and nothing afterwards. Whoever fails
to subscribe is told why, the version being looked at first; whoever starts with anything else is
not answered.

## Main definitions

* `Arrival.opening?`: the first request on a connection, and what arrives after it.
* `Arrival.served`: the requests that an open session takes.
* `SessionPolicy.Grants`: who may subscribe.

## Main statements

* `run_active`: what an open session reports.
* `refusal_fits`: a refusal fits every frame that a subscription came in.
* `sessions_report_granted_nodes_only`: what a session reports and answers from its beginning.
-/

namespace Cohort

/-! ## Arrivals -/

namespace Arrival

/-- Whether an open session ends here: a log-off, an error, the end of the stream or a stop. -/
def ends : Arrival → Bool
  | .request .logOff | .failed _ | .stopped => true
  | .request _ => false

/-- The request that arrives, if any. -/
def request? : Arrival → Option Request
  | .request asked => some asked
  | _ => none

/-- The requests that arrive before an open session ends. -/
def served (arrivals : List Arrival) : List Request :=
  (arrivals.takeWhile fun arrival => !arrival.ends).filterMap request?

/-- The first request on a connection that has not failed before, and what arrives after it. -/
def opening? : List Arrival → Option (Request × List Arrival)
  | [] => none
  | .request asked :: later => some (asked, later)
  | .stopped :: later => opening? later
  | .failed _ :: _ => none

/-- A failure that arrives comes after the first request, if there is one. -/
theorem failed_mem_of_opening? {arrivals later : List Arrival} {asked : Request}
    {failure : Failure} (first : opening? arrivals = some (asked, later))
    (failed : .failed failure ∈ arrivals) : .failed failure ∈ later := by
  induction arrivals with
  | nil => cases first
  | cons arrival rest ih =>
    cases arrival with
    | request opening =>
      obtain ⟨-, rfl⟩ : opening = asked ∧ rest = later := by simpa [opening?] using first
      simpa using failed
    | failed other => cases first
    | stopped => exact ih first (by simpa using failed)

end Arrival

/-! ## An open session -/

/-- What the node hears of an open session as long as these arrive. -/
def SessionReport.ofArrivals (arrivals : List Arrival) : List SessionReport :=
  (Arrival.served arrivals).map .request ++ if arrivals.any Arrival.ends then [.closed] else []

section Open

variable {policy : SessionPolicy} {node : NodeName} {arrival : Arrival}

/-- Nothing that arrives after the end counts. -/
theorem run_ended (policy : SessionPolicy) (arrivals : List Arrival) :
    SessionPhase.run policy .ended arrivals = ⟨.ended, [], []⟩ := by
  induction arrivals with
  | nil => rfl
  | cons arrival rest ih => simp only [SessionPhase.run, SessionPhase.step, ih, List.append_nil]

/-- What ends an open session is reported as its close. -/
theorem step_active_of_ends (final : arrival.ends) :
    (SessionPhase.active node).step policy arrival = ⟨.ended, [.closed], []⟩ := by
  cases arrival with
  | request request => cases request <;> first | rfl | cases final
  | failed failure => rfl
  | stopped => rfl

/-- Whatever else arrives at an open session is a request, which is reported. -/
theorem step_active_of_not_ends (policy : SessionPolicy) (node : NodeName)
    (goes : arrival.ends = false) :
    ∃ request, arrival = .request request ∧
      (SessionPhase.active node).step policy arrival = ⟨.active node, [.request request], []⟩ := by
  cases arrival with
  | request request => cases request <;> first | exact ⟨_, rfl, rfl⟩ | cases goes
  | failed failure => cases goes
  | stopped => cases goes

/-- An open session reports the requests up to its end and then its close; it answers nothing by
itself. -/
theorem run_active (policy : SessionPolicy) (node : NodeName) (arrivals : List Arrival) :
    SessionPhase.run policy (.active node) arrivals =
      ⟨if arrivals.any Arrival.ends then .ended else .active node,
        SessionReport.ofArrivals arrivals, []⟩ := by
  induction arrivals with
  | nil => rfl
  | cons arrival rest ih =>
    cases final : arrival.ends with
    | true =>
      simp [SessionPhase.run, step_active_of_ends final, run_ended, SessionReport.ofArrivals,
        Arrival.served, final]
    | false =>
      obtain ⟨request, rfl, turn⟩ := step_active_of_not_ends policy node final
      simp [SessionPhase.run, turn, ih, SessionReport.ofArrivals, Arrival.served, final,
        Arrival.request?]

end Open

/-! ## The subscription -/

/-- Who may subscribe: whoever speaks the version spoken here and, where the cluster has a secret,
knows the digest of the own name followed by that secret. -/
def SessionPolicy.Grants (policy : SessionPolicy) (credentials : Credentials) (version : UInt16) :
    Prop :=
  version = protocolVersion ∧ ∀ secret ∈ policy.secret, credentials.password =
    (policy.digest (Bytes.ofText credentials.nodeName ++ Bytes.ofText secret)).toHex

/-- Why a subscription that may not be accepted is refused: the version is looked at first. -/
def refusalReason (version : UInt16) : Failure :=
  if version = protocolVersion then .authFailed else .versionMismatch

section Subscription

variable {policy : SessionPolicy} {credentials : Credentials} {version : UInt16}

theorem isAuthenticThrough_iff (policy : SessionPolicy) (credentials : Credentials) :
    credentials.isAuthenticThrough policy.digest policy.secret ↔
      ∀ secret ∈ policy.secret, credentials.password =
        (policy.digest (Bytes.ofText credentials.nodeName ++ Bytes.ofText secret)).toHex := by
  cases policy.secret with
  | none => simp [Credentials.isAuthenticThrough]
  | some secret => simp [Credentials.isAuthenticThrough, Credentials.passwordThrough, eq_comm]

theorem verdict_of_grants (granted : policy.Grants credentials version) :
    policy.verdict credentials version = .ok () := by
  have authentic := (isAuthenticThrough_iff policy credentials).2 granted.2
  simp [SessionPolicy.verdict, granted.1, authentic]

theorem verdict_of_not_grants (denied : ¬ policy.Grants credentials version) :
    policy.verdict credentials version = .error (refusalReason version) := by
  unfold SessionPolicy.verdict refusalReason
  by_cases spoken : version = protocolVersion
  · have unknown : ¬ credentials.isAuthenticThrough policy.digest policy.secret :=
      fun authentic => denied ⟨spoken, (isAuthenticThrough_iff policy credentials).1 authentic⟩
    simp [spoken, unknown]
  · simp [spoken]

/-- Before the first request only a failure means anything, and it ends the session unheard. -/
theorem run_opening_of_none {arrivals : List Arrival} (none : Arrival.opening? arrivals = none) :
    SessionPhase.run policy .opening arrivals = ⟨.ended, [], []⟩ ∨
      SessionPhase.run policy .opening arrivals = ⟨.opening, [], []⟩ ∧
        ∀ failure, .failed failure ∉ arrivals := by
  induction arrivals with
  | nil => exact .inr ⟨rfl, by simp⟩
  | cons arrival rest ih =>
    cases arrival with
    | request request => cases none
    | failed failure => exact .inl (by simp [SessionPhase.run, SessionPhase.step, run_ended])
    | stopped =>
      obtain begun | ⟨begun, intact⟩ := ih none
      · simp [SessionPhase.run, SessionPhase.step, begun]
      · simp [SessionPhase.run, SessionPhase.step, begun, intact]

/-- The session begins with the first request. -/
theorem run_opening_of_some {arrivals later : List Arrival} {request : Request}
    (first : Arrival.opening? arrivals = some (request, later)) :
    SessionPhase.run policy .opening arrivals =
      SessionPhase.run policy .opening (.request request :: later) := by
  induction arrivals with
  | nil => cases first
  | cons arrival rest ih =>
    cases arrival with
    | request opening =>
      obtain ⟨rfl, rfl⟩ : opening = request ∧ rest = later := by
        simpa [Arrival.opening?] using first
      rfl
    | failed failure => cases first
    | stopped =>
      rw [← ih first]
      simp [SessionPhase.run, SessionPhase.step]

/-- A subscription that may be accepted opens the session. -/
theorem run_of_grants (granted : policy.Grants credentials version) (later : List Arrival) :
    SessionPhase.run policy .opening (.request (.subscribe credentials version) :: later) =
      ⟨if later.any Arrival.ends then .ended else .active credentials.nodeName,
        .opened credentials.nodeName :: SessionReport.ofArrivals later, []⟩ := by
  simp [SessionPhase.run, SessionPhase.step, SessionPhase.begin?, verdict_of_grants granted,
    run_active]

/-- Any other subscription is refused, and the session ends. -/
theorem run_of_not_grants (denied : ¬ policy.Grants credentials version) (later : List Arrival) :
    SessionPhase.run policy .opening (.request (.subscribe credentials version) :: later) =
      ⟨.ended, [], [.refused (refusalReason version).code]⟩ := by
  simp [SessionPhase.run, SessionPhase.step, SessionPhase.begin?, verdict_of_not_grants denied,
    run_ended]

/-- A session that begins with anything but a subscription ends unheard. -/
theorem run_of_not_subscribe {request : Request}
    (other : ∀ credentials version, request ≠ .subscribe credentials version)
    (later : List Arrival) :
    SessionPhase.run policy .opening (.request request :: later) = ⟨.ended, [], []⟩ := by
  have turn : SessionPhase.begin? policy request = ⟨.ended, [], []⟩ := by
    cases request with
    | subscribe credentials version => exact absurd rfl (other credentials version)
    | _ => rfl
  simp [SessionPhase.run, SessionPhase.step, turn, run_ended]

end Subscription

/-! ## The refusal on the wire -/

section Wire

variable {α β : Type} {bs rest : Bytes}

/-- A read that goes on after a value found that value first. -/
theorem Reader.bind_eq_some {first : Reader α} {second : α → Reader β} {b : β}
    (found : (first >>= second) bs = (some b, rest)) :
    ∃ a left, first bs = (some a, left) ∧ second a left = (some b, rest) := by
  rw [Reader.bind_apply] at found
  generalize begun : first bs = front at found
  obtain ⟨_ | a, left⟩ := front
  · cases found
  · exact ⟨a, left, rfl, found⟩

theorem Reader.accept_eq_some {reader : Reader α} {f : α → Option β} {b : β}
    (found : reader.accept f bs = (some b, rest)) : ∃ a, reader bs = (some a, rest) := by
  unfold Reader.accept at found
  generalize begun : reader bs = front at found
  obtain ⟨_ | a, left⟩ := front
  · cases found
  · exact ⟨a, by rw [show left = rest from congrArg Prod.snd found]⟩

/-- A number that is read takes its whole width. -/
theorem length_of_read_number {width n : Nat}
    (found : (Codec.number width).read bs = (some n, rest)) : width + rest.length ≤ bs.length := by
  obtain ⟨front, taken⟩ := Reader.accept_eq_some found
  unfold Reader.take at taken
  split at taken
  · next long =>
    obtain rfl : bs.drop width = rest := congrArg Prod.snd taken
    rw [List.length_take] at long
    rw [List.length_drop]
    omega
  · cases taken

theorem length_of_read_text {s : String} (found : Codec.text.read bs = (some s, rest)) :
    8 ≤ bs.length := by
  obtain ⟨octets, found⟩ := Reader.accept_eq_some found
  obtain ⟨length, left, counted, -⟩ := Reader.bind_eq_some found
  have := length_of_read_number counted
  omega

/-- A subscription takes more octets than a refusal. -/
theorem length_of_read_subscribe {credentials : Credentials} {version : UInt16}
    (found : Request.codec.read bs = (some (.subscribe credentials version), rest)) :
    12 ≤ bs.length := by
  obtain ⟨place, left, placed, found⟩ := Reader.bind_eq_some found
  obtain ⟨_, numbered⟩ := Reader.accept_eq_some placed
  have begun := length_of_read_number numbered
  -- only the case with the number zero is a subscription
  generalize place.toNat = number at found
  obtain _ | _ | _ | _ | _ | number := number
  · obtain ⟨fields, _, found, -⟩ := Reader.bind_eq_some found
    obtain ⟨_, _, found, -⟩ := Reader.bind_eq_some found
    obtain ⟨_, found⟩ := Reader.accept_eq_some found
    obtain ⟨_, _, found, -⟩ := Reader.bind_eq_some found
    have name := length_of_read_text found
    omega
  · obtain ⟨_, _, -, other⟩ := Reader.bind_eq_some found
    cases other
  · obtain ⟨_, _, -, other⟩ := Reader.bind_eq_some found
    cases other
  · obtain ⟨_, _, -, other⟩ := Reader.bind_eq_some found
    cases other
  · cases found
  · cases found

/-- A refusal fits every frame limit that a subscription passed. -/
theorem refusal_fits {credentials : Credentials} {version : UInt16} {limit : Nat}
    (read : Request.codec.decode? bs = some (.subscribe credentials version))
    (passed : bs.length + frameHeader ≤ limit) (code : UInt32) (draft : Draft) :
    ∃ frame, (draft.encode Message.codec limit (.refused code)).1 = .ok frame := by
  have long : 12 ≤ bs.length := by
    have found : Request.codec.read bs = (some (.subscribe credentials version), _) :=
      Prod.ext read rfl
    exact length_of_read_subscribe found
  have short : (Message.codec.encode (.refused code)).length = 8 := by
    simp [Message.codec, Codec.inCase, Codec.caseNumber, Codec.u32, Codec.through, Codec.number]
  have fits : ¬ 8 + frameHeader > limit := by omega
  exact ⟨_, by simp [Draft.encode, Draft.append, Draft.length, Draft.fresh, short, fits]; rfl⟩

end Wire

/-! ## A session from its beginning -/

/-- Only sessions that were granted reach the node, in a fixed order, and only a refused
subscription is answered by the session itself. A granted one is reported as opened under the name
it presented, then come the requests in order up to the first log-off, failure or stop, then one
close if one of these arrives. Once the connection failed or ended the session has ended, so that
what it reported is nothing, or opened, requests and exactly one close. A refusal fits the frames
of the connection its subscription came over, whatever their limit. -/
theorem sessions_report_granted_nodes_only (policy : SessionPolicy) (arrivals : List Arrival) :
    let turn := SessionPhase.run policy .opening arrivals
    (match Arrival.opening? arrivals with
      | some (.subscribe credentials version, later) =>
        (policy.Grants credentials version →
          turn.answers = [] ∧
          turn.reports = .opened credentials.nodeName :: ((Arrival.served later).map .request ++
            if later.any Arrival.ends then [.closed] else [])) ∧
        (¬ policy.Grants credentials version →
          turn.reports = [] ∧ turn.answers = [.refused (refusalReason version).code] ∧
          ∀ payload limit draft,
            Request.codec.decode? payload = some (.subscribe credentials version) →
            payload.length + frameHeader ≤ limit →
            ∃ frame, (Draft.encode Message.codec limit
              (.refused (refusalReason version).code) draft).1 = .ok frame)
      | _ => turn.reports = [] ∧ turn.answers = []) ∧
    ((∃ failure, .failed failure ∈ arrivals) →
      turn.phase = .ended ∧ (turn.reports = [] ∨
        ∃ (name : NodeName) (requests : List Request),
          turn.reports = .opened name :: (requests.map .request ++ [.closed]))) := by
  intro turn
  cases first : Arrival.opening? arrivals with
  | none =>
    have begun : turn = _ ∨ turn = _ ∧ _ := run_opening_of_none first
    obtain begun | ⟨begun, intact⟩ := begun
    · simp [begun]
    · exact ⟨by simp [begun], fun ⟨failure, failed⟩ => absurd failed (intact failure)⟩
  | some opening =>
    obtain ⟨request, later⟩ := opening
    have begun : turn = _ := run_opening_of_some first
    by_cases subscribes : ∃ credentials version, request = .subscribe credentials version
    · obtain ⟨credentials, version, rfl⟩ := subscribes
      by_cases granted : policy.Grants credentials version
      · rw [run_of_grants granted] at begun
        refine ⟨⟨fun _ => by simp [begun, SessionReport.ofArrivals], (absurd granted ·)⟩, ?_⟩
        rintro ⟨failure, failed⟩
        have ends : later.any Arrival.ends = true :=
          List.any_eq_true.2 ⟨_, Arrival.failed_mem_of_opening? first failed, rfl⟩
        exact ⟨by simp [begun, ends], .inr ⟨credentials.nodeName, Arrival.served later,
          by simp [begun, ends, SessionReport.ofArrivals]⟩⟩
      · rw [run_of_not_grants granted] at begun
        refine ⟨⟨(absurd · granted), fun _ => ⟨by simp [begun], by simp [begun], ?_⟩⟩, ?_⟩
        · intro payload limit draft read passed
          exact refusal_fits read passed _ draft
        · intro _
          simp [begun]
    · rw [run_of_not_subscribe (fun credentials version same =>
        subscribes ⟨credentials, version, same⟩)] at begun
      refine ⟨?_, fun _ => by simp [begun]⟩
      cases request with
      | subscribe credentials version => exact absurd ⟨_, _, rfl⟩ subscribes
      | _ => simp [begun]

end Cohort
