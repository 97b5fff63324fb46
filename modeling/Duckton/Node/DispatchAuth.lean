/-
  Which dispatches a host executes (node/worker.rs: `make_bid_authenticated`, `authorize_dispatch`,
  `dispatch_authorized`, `handle_dispatch` up to the start of the engine).

  An accepting bid mints an authorization for its peer and job; a dispatch has to find one that is
  still live. The connections of a host run side by side, so an offer is handled in two steps, one
  for each lock that is taken: first the gates with the rate limiter, then the authorization. A
  dispatch looks at the authorizations once and reads nothing shared afterwards but its admission,
  so it is one step; whether it is admitted and which input it finds are part of the event. Time is
  counted in nanoseconds of the monotonic clock, and each event says how long after the one before
  it comes.

  No step takes an authorization away once it is used. `work_bounded` says what that means for the
  work a host does: the bound by its accepting bids is kept by the peers, not by the host.
-/
import Duckton.Lib.History
import Duckton.Lib.Run
import Duckton.Node.Bidding
import Duckton.Node.LocalPath

namespace Duckton.Node

open Duckton.Proto

/-! ## Authorizations -/

/-- `DISPATCH_AUTH_TTL`: 300 seconds. -/
def dispatchAuthTtl : Nat :=
  300 * 1000000000

structure AuthEntry where
  requester : NodeId
  expiresAt : Nat
  deriving DecidableEq, Repr

/-- The authorizations by job. -/
abbrev AuthMap := List (JobId × AuthEntry)

/-- `retain(|_, a| a.expires_at > now)` -/
def AuthMap.sweep (m : AuthMap) (now : Nat) : AuthMap :=
  m.filter fun entry => now < entry.2.expiresAt

def AuthMap.authorizeDispatch (m : AuthMap) (now : Nat) (jobId : JobId) (requester : NodeId) :
    AuthMap :=
  (jobId, ⟨requester, now + dispatchAuthTtl⟩) :: (m.sweep now).filter (·.1 ≠ jobId)

def AuthMap.dispatchAuthorized (m : AuthMap) (now : Nat) (jobId : JobId) (peer : NodeId) : Bool :=
  match (m.sweep now).find? (·.1 = jobId) with
  | some entry => decide (entry.2.requester = peer)
  | none => false

/-! ## Dispatches -/

structure Dispatch where
  jobId : JobId
  memoryLimitBytes : Nat
  threads : Nat
  maxSpillBytes : Nat
  inputFingerprint : Option String
  deriving DecidableEq, Repr

inductive InputObservation where
  | unpinned
  | pinned (fingerprint : String)
  | unavailable (reason : String)
  deriving DecidableEq, Repr

/-- What the host meets while it handles a dispatch: whether `try_admit` finds room for a demand of
    memory and threads, and what the input reader sees. -/
structure DispatchReading where
  admits : Nat → Nat → Bool
  observe : Option String → InputObservation

/-- The acknowledgement that ends the stream, or the lease with which the engine starts. -/
inductive DispatchOutcome where
  | refused (detail : String)
  | started (lease : ExecLease)
  deriving DecidableEq, Repr

def effectiveSpillCap (dispatchCap hostCap : Nat) : Nat :=
  if dispatchCap = 0 then hostCap
  else if hostCap = 0 then dispatchCap
  else min dispatchCap hostCap

variable (w : Worker)

namespace Worker

/-- The memory to reserve, zero standing for the host's own default. -/
def admitMemory (d : Dispatch) : Nat :=
  if d.memoryLimitBytes = 0 then w.params.perJobMemoryBytes else d.memoryLimitBytes

def admitThreads (d : Dispatch) : Nat :=
  if d.threads = 0 then w.params.perJobThreads else d.threads

def handleDispatch (authorized : AuthMap) (now : Nat) (peer : NodeId) (d : Dispatch)
    (r : DispatchReading) : DispatchOutcome :=
  if !authorized.dispatchAuthorized now d.jobId peer then
    .refused "dispatch not authorized: no accepting bid from this peer for this job"
  else if !r.admits (w.admitMemory d) (w.admitThreads d) then .refused "at capacity"
  else
    let lease : ExecLease :=
      ⟨min (w.admitMemory d + w.params.spillToleranceBytes) (2 ^ 64 - 1), w.admitThreads d,
        effectiveSpillCap d.maxSpillBytes w.params.maxSpillBytes⟩
    match r.observe d.inputFingerprint with
    | .unavailable reason => .refused ("pinned input version not found: " ++ reason)
    | .unpinned => .started lease
    | .pinned _ => .started lease

end Worker

/-! ## Runs of a host -/

/-- What a host has done for its peers. -/
inductive WorkRecord where
  | accepted (peer : NodeId) (jobId : JobId) (time : Nat)
  | executed (peer : NodeId) (jobId : JobId) (time : Nat)
  deriving DecidableEq, Repr

/-- `accepting` holds the offers whose bid is decided but whose authorization is not minted yet. -/
structure WorkerState where
  clock : Nat
  limiter : RateInner
  accepting : List (NodeId × JobId)
  authorized : AuthMap
  log : List WorkRecord
  deriving DecidableEq, Repr

def WorkerState.start : WorkerState :=
  ⟨0, ⟨[], []⟩, [], [], []⟩

/-- A message of the authenticated `peer` reaches its handler, or the handler of an accepted offer
    goes on to the authorization and sends the bid. -/
inductive WorkerEvent where
  | offer (peer : NodeId) (offer : Offer) (r : OfferReading)
  | authorize (task : Nat)
  | dispatch (peer : NodeId) (d : Dispatch) (r : DispatchReading)

/-- An event and the time since the one before. -/
structure TimedEvent where
  elapsed : Nat
  event : WorkerEvent

variable (s : WorkerState)

namespace Worker

/-- `make_bid_authenticated` up to the authorization. -/
def makeBidAuthenticated (inner : RateInner) (r : OfferReading) (peer : NodeId)
    (offer : Offer) : Bid × RateInner :=
  if offer.requesterId ≠ peer then
    (w.rejectBid r "offer requester_id does not match the authenticated mTLS peer", inner)
  else w.makeBid inner r offer

def onOffer (peer : NodeId) (offer : Offer) (r : OfferReading) : WorkerState :=
  let answer := w.makeBidAuthenticated s.limiter r peer offer
  match answer.1.decision with
  | .accept => { s with limiter := answer.2, accepting := s.accepting ++ [(peer, offer.jobId)] }
  | .reject _ => { s with limiter := answer.2 }

def onAuthorize (task : Nat) : WorkerState :=
  match s.accepting[task]? with
  | none => s
  | some (peer, jobId) =>
    { s with
      accepting := s.accepting.eraseIdx task
      authorized := s.authorized.authorizeDispatch s.clock jobId peer
      log := s.log ++ [.accepted peer jobId s.clock] }

def onDispatch (peer : NodeId) (d : Dispatch) (r : DispatchReading) : WorkerState :=
  let swept := { s with authorized := s.authorized.sweep s.clock }
  match w.handleDispatch s.authorized s.clock peer d r with
  | .refused _ => swept
  | .started _ => { swept with log := s.log ++ [.executed peer d.jobId s.clock] }

def handle : WorkerEvent → WorkerState
  | .offer peer offer r => w.onOffer s peer offer r
  | .authorize task => onAuthorize s task
  | .dispatch peer d r => w.onDispatch s peer d r

def step (e : TimedEvent) : WorkerState :=
  w.handle { s with clock := s.clock + e.elapsed } e.event

end Worker

/-! ## What a step does -/

/-- What happens to the authorizations and the log in one step: nothing but expiry, a new
    authorization with its bid, or an execution. -/
inductive WorkMove (w : Worker) (s : WorkerState) (e : TimedEvent) (s' : WorkerState) : Prop
  | quiet (hlog : s'.log = s.log) (hauth : ∀ entry ∈ s'.authorized, entry ∈ s.authorized)
  | accepted (peer : NodeId) (jobId : JobId)
      (hlog : s'.log = s.log ++ [.accepted peer jobId s'.clock])
      (hauth : ∀ entry ∈ s'.authorized,
        entry = (jobId, ⟨peer, s'.clock + dispatchAuthTtl⟩) ∨ entry ∈ s.authorized)
  | executed (peer : NodeId) (d : Dispatch) (r : DispatchReading)
      (hevent : e.event = .dispatch peer d r)
      (hlive : s.authorized.dispatchAuthorized s'.clock d.jobId peer = true)
      (hadmits : r.admits (w.admitMemory d) (w.admitThreads d) = true)
      (hinput : ∀ reason, r.observe d.inputFingerprint ≠ .unavailable reason)
      (hlog : s'.log = s.log ++ [.executed peer d.jobId s'.clock])
      (hauth : ∀ entry ∈ s'.authorized, entry ∈ s.authorized)

variable {m : AuthMap} {now : Nat}

variable {entry : JobId × AuthEntry} {jobId : JobId}

theorem AuthMap.mem_of_mem_sweep (h : entry ∈ m.sweep now) :
    entry ∈ m ∧ now < entry.2.expiresAt := by
  obtain ⟨hmem, hlive⟩ := List.mem_filter.mp h
  exact ⟨hmem, of_decide_eq_true hlive⟩

theorem AuthMap.mem_authorizeDispatch {requester : NodeId}
    (h : entry ∈ m.authorizeDispatch now jobId requester) :
    entry = (jobId, ⟨requester, now + dispatchAuthTtl⟩) ∨ entry ∈ m := by
  rcases List.mem_cons.mp h with h | h
  · exact .inl h
  · exact .inr (mem_of_mem_sweep (List.mem_filter.mp h).1).1

/-- A live authorization of the peer for the job. -/
theorem AuthMap.exists_of_dispatchAuthorized {peer : NodeId}
    (h : m.dispatchAuthorized now jobId peer = true) :
    ∃ expiresAt, (jobId, ⟨peer, expiresAt⟩) ∈ m ∧ now < expiresAt := by
  unfold dispatchAuthorized at h
  cases hfind : (m.sweep now).find? (·.1 = jobId) with
  | none =>
    rw [hfind] at h
    cases h
  | some entry =>
    rw [hfind] at h
    obtain ⟨jobId', requester, expiresAt⟩ := entry
    obtain ⟨hmem, hlive⟩ := mem_of_mem_sweep (List.mem_of_find?_eq_some hfind)
    obtain rfl : jobId' = jobId := of_decide_eq_true (List.find?_some hfind :)
    obtain rfl : requester = peer := of_decide_eq_true h
    exact ⟨expiresAt, hmem, hlive⟩

namespace Worker

theorem handleDispatch_started {w : Worker} {peer : NodeId} {d : Dispatch} {r : DispatchReading}
    {lease : ExecLease} (h : w.handleDispatch m now peer d r = .started lease) :
    m.dispatchAuthorized now d.jobId peer = true ∧
      r.admits (w.admitMemory d) (w.admitThreads d) = true ∧
      ∀ reason, r.observe d.inputFingerprint ≠ .unavailable reason := by
  unfold handleDispatch at h
  cases hlive : m.dispatchAuthorized now d.jobId peer with
  | false =>
    rw [hlive] at h
    cases h
  | true =>
    cases hadmits : r.admits (w.admitMemory d) (w.admitThreads d) with
    | false =>
      rw [hlive, hadmits] at h
      cases h
    | true =>
      refine ⟨rfl, rfl, fun reason hinput => ?_⟩
      rw [hlive, hadmits, hinput] at h
      cases h

/-- An offer by itself touches neither the authorizations nor the log. -/
theorem onOffer_eq (peer : NodeId) (offer : Offer) (r : OfferReading) :
    ∃ limiter accepting, w.onOffer s peer offer r =
      { s with limiter := limiter, accepting := accepting } := by
  unfold onOffer
  cases hdecision : (w.makeBidAuthenticated s.limiter r peer offer).1.decision with
  | accept | reject reason =>
    simp only [hdecision]
    exact ⟨_, _, rfl⟩

theorem step_spec (e : TimedEvent) :
    (w.step s e).clock = s.clock + e.elapsed ∧ WorkMove w s e (w.step s e) := by
  obtain ⟨elapsed, event⟩ := e
  cases event with
  | offer peer offer r =>
    obtain ⟨_, _, hoffer⟩ := w.onOffer_eq { s with clock := s.clock + elapsed } peer offer r
    show (w.onOffer _ peer offer r).clock = _ ∧ WorkMove w s _ (w.onOffer _ peer offer r)
    rw [hoffer]
    exact ⟨rfl, .quiet rfl fun _ hentry => hentry⟩
  | authorize task =>
    show (onAuthorize _ task).clock = _ ∧ WorkMove w s _ (onAuthorize _ task)
    unfold onAuthorize
    split
    · exact ⟨rfl, .quiet rfl fun _ hentry => hentry⟩
    · exact ⟨rfl, .accepted _ _ rfl fun _ hentry => AuthMap.mem_authorizeDispatch hentry⟩
  | dispatch peer d r =>
    show (w.onDispatch _ peer d r).clock = _ ∧ WorkMove w s _ (w.onDispatch _ peer d r)
    have hswept : ∀ entry ∈ s.authorized.sweep (s.clock + elapsed), entry ∈ s.authorized :=
      fun _ hentry => (AuthMap.mem_of_mem_sweep hentry).1
    unfold onDispatch
    split
    · exact ⟨rfl, .quiet rfl hswept⟩
    · next lease hstarted =>
      obtain ⟨hlive, hadmits, hinput⟩ := handleDispatch_started hstarted
      exact ⟨rfl, .executed peer d r rfl hlive hadmits hinput rfl hswept⟩

end Worker

/-! ## Every execution has a bid behind it -/

/-- An execution stands after an accepting bid to the same peer for the same job, less than 300
    seconds old. -/
def Preceded (earlier : List WorkRecord) : WorkRecord → Prop
  | .accepted _ _ _ => True
  | .executed peer jobId time =>
    ∃ sent, .accepted peer jobId sent ∈ earlier ∧ sent ≤ time ∧ time < sent + dispatchAuthTtl

/-- The authorizations are those of bids on record. -/
def WorkerState.Backed : Prop :=
  ∀ entry ∈ s.authorized, ∃ sent, .accepted entry.2.requester entry.1 sent ∈ s.log ∧
    sent ≤ s.clock ∧ entry.2.expiresAt = sent + dispatchAuthTtl

theorem WorkerState.Backed.preceded {s : WorkerState} (hs : s.Backed) (hnow : s.clock ≤ now)
    {peer : NodeId} (hlive : s.authorized.dispatchAuthorized now jobId peer = true) :
    Preceded s.log (.executed peer jobId now) := by
  obtain ⟨expiresAt, hmem, hexpires⟩ := AuthMap.exists_of_dispatchAuthorized hlive
  obtain ⟨sent, hsent, hclock, heq⟩ := hs _ hmem
  have heq : expiresAt = sent + dispatchAuthTtl := heq
  exact ⟨sent, hsent, Nat.le_trans hclock hnow, heq ▸ hexpires⟩

namespace Worker

variable {w : Worker}

theorem backed_step {s : WorkerState} (hs : s.Backed) (e : TimedEvent) : (w.step s e).Backed := by
  obtain ⟨hclock, hmove⟩ := w.step_spec s e
  intro entry hentry
  have hold : entry ∈ s.authorized → ∀ rest, (w.step s e).log = s.log ++ rest →
      ∃ sent, .accepted entry.2.requester entry.1 sent ∈ (w.step s e).log ∧
        sent ≤ (w.step s e).clock ∧ entry.2.expiresAt = sent + dispatchAuthTtl := by
    intro hmem rest hlog
    obtain ⟨sent, hsent, htime, hexpires⟩ := hs entry hmem
    exact ⟨sent, hlog ▸ List.mem_append_left _ hsent, by omega, hexpires⟩
  cases hmove with
  | quiet hlog hauth => exact hold (hauth entry hentry) [] (by rw [hlog, List.append_nil])
  | accepted peer jobId hlog hauth =>
    rcases hauth entry hentry with rfl | hmem
    · exact ⟨_, hlog ▸ List.mem_append_right _ (List.mem_singleton_self _), Nat.le_refl _, rfl⟩
    · exact hold hmem _ hlog
  | executed peer d r _ _ _ _ hlog hauth => exact hold (hauth entry hentry) _ hlog

theorem preceded_step {s : WorkerState} (hs : s.Backed)
    (hlog : History.Justified Preceded s.log) (e : TimedEvent) :
    History.Justified Preceded (w.step s e).log := by
  obtain ⟨hclock, hmove⟩ := w.step_spec s e
  cases hmove with
  | quiet hlog' _ => exact hlog' ▸ hlog
  | accepted peer jobId hlog' _ =>
    rw [hlog']
    exact hlog.concat trivial
  | executed peer d r _ hlive _ _ hlog' _ =>
    rw [hlog']
    exact hlog.concat (hs.preceded (by omega) hlive)

end Worker

/-! ## How much work the bids allow -/

/-- The jobs of the accepting bids sent to a peer. -/
def acceptedJobs (peer : NodeId) (log : List WorkRecord) : List JobId :=
  log.filterMap fun
    | .accepted p jobId _ => if p = peer then some jobId else none
    | .executed _ _ _ => none

/-- The jobs of the executions started for a peer. -/
def executedJobs (peer : NodeId) (log : List WorkRecord) : List JobId :=
  log.filterMap fun
    | .accepted _ _ _ => none
    | .executed p jobId _ => if p = peer then some jobId else none

/-- Every execution is preceded by its bid, and no peer gets more executions than bids. -/
structure WorkBounded (log : List WorkRecord) : Prop where
  preceded : History.Justified Preceded log
  counted : ∀ peer, (executedJobs peer log).length ≤ (acceptedJobs peer log).length

def WorkRecord.concerns (peer : NodeId) (jobId : JobId) : WorkRecord → Bool
  | .accepted p j _ => decide (p = peer ∧ j = jobId)
  | .executed p j _ => decide (p = peer ∧ j = jobId)

variable (log : List WorkRecord)

def lastRecord (peer : NodeId) (jobId : JobId) : Option WorkRecord :=
  (log.filter (·.concerns peer jobId)).getLast?

/-- The bids to this peer for this job have been used: the last thing on record about them is an
    execution. -/
def spent (peer : NodeId) (jobId : JobId) : Bool :=
  match lastRecord log peer jobId with
  | some (.executed _ _ _) => true
  | _ => false

/-- A dispatch that finds a live authorization, room and its input is the first one for the job
    since the host's last accepting bid for it. -/
def Worker.FirstUse (e : TimedEvent) : Prop :=
  match e.event with
  | .dispatch peer d r =>
    s.authorized.dispatchAuthorized (s.clock + e.elapsed) d.jobId peer = true →
    r.admits (w.admitMemory d) (w.admitThreads d) = true →
    (∀ reason, r.observe d.inputFingerprint ≠ .unavailable reason) →
    spent s.log peer d.jobId = false
  | _ => True

theorem lastRecord_concat (record : WorkRecord) (peer : NodeId) (jobId : JobId) :
    lastRecord (log ++ [record]) peer jobId =
      if record.concerns peer jobId then some record else lastRecord log peer jobId := by
  unfold lastRecord
  cases hconcerns : record.concerns peer jobId with
  | false | true => simp [List.filter_append, hconcerns]

/-- 1 while the latest bid for the job has not been used. -/
def unused (peer : NodeId) (jobId : JobId) : Nat :=
  match lastRecord log peer jobId with
  | some (.accepted _ _ _) => 1
  | _ => 0

/-- Job by job: the executions, with the bid that is still unused, are covered by the bids. -/
def Covered : Prop :=
  ∀ peer jobId, (executedJobs peer log).count jobId + unused log peer jobId ≤
    (acceptedJobs peer log).count jobId

theorem covered_nil : Covered [] :=
  fun _ _ => Nat.le_refl 0

/-- What one more record does to the three counts of a job. -/
theorem counts_concat (record : WorkRecord) (peer : NodeId) (jobId : JobId) :
    (executedJobs peer (log ++ [record])).count jobId =
        (executedJobs peer log).count jobId + (executedJobs peer [record]).count jobId ∧
      (acceptedJobs peer (log ++ [record])).count jobId =
        (acceptedJobs peer log).count jobId + (acceptedJobs peer [record]).count jobId ∧
      unused (log ++ [record]) peer jobId =
        if record.concerns peer jobId then unused [record] peer jobId
        else unused log peer jobId := by
  unfold executedJobs acceptedJobs
  rw [List.filterMap_append, List.filterMap_append, List.count_append, List.count_append]
  refine ⟨rfl, rfl, ?_⟩
  have hlast := lastRecord_concat [] record peer jobId
  rw [List.nil_append] at hlast
  unfold unused
  rw [lastRecord_concat, hlast]
  cases record.concerns peer jobId with
  | true | false => rfl

variable {log : List WorkRecord}

/-- Only the record's own job is looked at. -/
theorem Covered.concat (h : Covered log) {record : WorkRecord}
    (hown : ∀ peer jobId, record.concerns peer jobId = true →
      (executedJobs peer [record]).count jobId + unused [record] peer jobId ≤
        unused log peer jobId + (acceptedJobs peer [record]).count jobId) :
    Covered (log ++ [record]) := by
  intro peer jobId
  have hbefore := h peer jobId
  obtain ⟨hexecuted, haccepted, hunused⟩ := counts_concat log record peer jobId
  rw [hexecuted, haccepted, hunused]
  cases hconcerns : record.concerns peer jobId with
  | true =>
    have hrecord := hown peer jobId hconcerns
    rw [if_pos rfl]
    omega
  | false =>
    have hnone : (executedJobs peer [record]).count jobId = 0 := by
      cases record with
      | accepted p j t => rfl
      | executed p j t =>
        rw [WorkRecord.concerns, decide_eq_false_iff_not, not_and] at hconcerns
        by_cases hp : p = peer
        · simp [executedJobs, hp, hconcerns hp]
        · simp [executedJobs, hp]
    rw [if_neg Bool.false_ne_true, hnone]
    omega

theorem Covered.accept (h : Covered log) (peer : NodeId) (jobId : JobId)
    (time : Nat) : Covered (log ++ [.accepted peer jobId time]) := by
  apply h.concat
  intro p j hconcerns
  obtain ⟨rfl, rfl⟩ := of_decide_eq_true hconcerns
  simp [executedJobs, acceptedJobs, unused, lastRecord, WorkRecord.concerns]

/-- An execution uses up the unused bid. -/
theorem Covered.execute (h : Covered log) {peer : NodeId} (time : Nat)
    (hunused : unused log peer jobId = 1) :
    Covered (log ++ [.executed peer jobId time]) := by
  apply h.concat
  intro p j hconcerns
  obtain ⟨rfl, rfl⟩ := of_decide_eq_true hconcerns
  rw [hunused]
  simp [executedJobs, acceptedJobs, unused, lastRecord, WorkRecord.concerns]

theorem Covered.counted (h : Covered log) (peer : NodeId) :
    (executedJobs peer log).length ≤ (acceptedJobs peer log).length := by
  have hsub : (executedJobs peer log).Subperm (acceptedJobs peer log) := by
    rw [List.subperm_ext_iff]
    exact fun jobId _ => Nat.le_trans (Nat.le_add_right _ _) (h peer jobId)
  exact hsub.length_le

/-- With a bid on record and the last record no execution, the last record is a bid. -/
theorem unused_of_not_spent {peer : NodeId} {sent : Nat} (hsent : .accepted peer jobId sent ∈ log)
    (hspent : spent log peer jobId = false) :
    unused log peer jobId = 1 := by
  have hmem : .accepted peer jobId sent ∈ log.filter (·.concerns peer jobId) :=
    List.mem_filter.mpr ⟨hsent, by simp [WorkRecord.concerns]⟩
  unfold spent at hspent
  unfold unused
  cases hlast : lastRecord log peer jobId with
  | none => exact absurd (List.getLast?_eq_none_iff.mp hlast) (List.ne_nil_of_mem hmem)
  | some record =>
    cases record with
    | accepted p j t => rfl
    | executed p j t =>
      rw [hlast] at hspent
      cases hspent

namespace Worker

variable {w : Worker}

theorem covered_step {s : WorkerState} (hs : s.Backed) (hlog : Covered s.log) {e : TimedEvent}
    (he : w.FirstUse s e) : Covered (w.step s e).log := by
  obtain ⟨hclock, hmove⟩ := w.step_spec s e
  cases hmove with
  | quiet hlog' _ => exact hlog' ▸ hlog
  | accepted peer jobId hlog' _ =>
    rw [hlog']
    exact hlog.accept peer jobId _
  | executed peer d r hevent hlive hadmits hinput hlog' _ =>
    rw [hlog']
    obtain ⟨sent, hsent, -, -⟩ := hs.preceded (by omega) hlive
    unfold FirstUse at he
    rw [hevent, ← hclock] at he
    exact hlog.execute _ (unused_of_not_spent hsent (he hlive hadmits hinput))

/-- In every run each execution has its bid behind it. -/
theorem executions_preceded (es : List TimedEvent) :
    Run.Always w.step (fun s => s.Backed ∧ History.Justified Preceded s.log) .start es := by
  refine Run.always_of_invariant ?_ ⟨nofun, History.justified_nil⟩ es
  exact fun s e hs => ⟨backed_step hs.1 e, preceded_step hs.1 hs.2 e⟩

/-- In every run in which no authorization is used twice, every execution is preceded by an
    accepting bid to its peer for its job, less than 300 seconds old, and no peer is served more
    often than it was sent an accepting bid. -/
theorem work_bounded (w : Worker) (es : List TimedEvent)
    (hes : Run.Guarded w.step w.FirstUse .start es) :
    Run.Always w.step (fun s => WorkBounded s.log) .start es := by
  have hcovered : Run.Always w.step (fun s => s.Backed ∧ Covered s.log) .start es := by
    refine Run.always_of_guarded ?_ ⟨nofun, covered_nil⟩ hes
    exact fun s e hs he => ⟨backed_step hs.1 e, covered_step hs.1 hs.2 he⟩
  refine Run.Always.mono ?_ (hcovered.and (executions_preceded es))
  exact fun s hs => ⟨hs.2.2, hs.1.2.counted⟩

end Worker

/-- A host that serves everybody, one free job a minute per requester. -/
def openHost : Worker where
  grid := ⟨Trust.plainEd25519, fun _ => none, fun _ => ⟨"b3:key"⟩⟩
  params :=
    { perJobMemoryBytes := 1024
      perJobThreads := 1
      spillToleranceBytes := 0
      maxSpillBytes := 0
      enabled := true
      networks := []
      groups := []
      region := none
      groupEnforcement := .soft
      groupIssuers := []
      regionToken := none
      pricing := ⟨.fixed, 0, 0, 0, 1⟩
      privateMode := false
      roster := []
      dataClasses := [.publicData] }
  servingBlock := none
  antiabuse := some
    { enabled := true
      blocklistWired := false
      costGateEnabled := false
      maxCostHintRows := 0
      freeRateLimitEnabled := true
      prioritizePaid := true
      economicsEnabled := false
      defaultPayment := .free
      rateLimiter := some (.new 1 60 100) }
  attestation := ⟨.l0, [], none⟩
  attestationFor _ := ⟨.l0, [], none⟩

def freeOffer : Offer :=
  ⟨⟨"job-1"⟩, ⟨"b3:alice"⟩, none, none, .publicData, 7, none, [], [], none⟩

def freeDispatch : Dispatch :=
  ⟨⟨"job-1"⟩, 0, 0, 0, none⟩

/-- Alice's offer is accepted. -/
def acceptedOffer : List TimedEvent :=
  [⟨0, .offer ⟨"b3:alice"⟩ freeOffer ⟨1000, ⟨4096, 4, 4⟩, []⟩⟩, ⟨0, .authorize 0⟩]

/-- A second later the job comes, and finds room. -/
def dispatched : TimedEvent :=
  ⟨1000000000, .dispatch ⟨"b3:alice"⟩ freeDispatch ⟨fun _ _ => true, fun _ => .unpinned⟩⟩

theorem one_dispatch_bounded :
    executedJobs ⟨"b3:alice"⟩
      (Run.final openHost.step .start (acceptedOffer ++ [dispatched])).log = [⟨"job-1"⟩] ∧
    Run.Always openHost.step (fun s => WorkBounded s.log) .start
      (acceptedOffer ++ [dispatched]) := by
  refine ⟨by decide, Worker.work_bounded openHost _ ⟨trivial, trivial, ?_, trivial⟩⟩
  intro _ _ _
  decide

/-- The same dispatch again starts a second execution under the one bid. -/
theorem replayed_dispatch_unbounded :
    (executedJobs ⟨"b3:alice"⟩ (Run.final openHost.step .start
      (acceptedOffer ++ [dispatched, dispatched])).log).length = 2 ∧
    (acceptedJobs ⟨"b3:alice"⟩ (Run.final openHost.step .start
      (acceptedOffer ++ [dispatched, dispatched])).log).length = 1 ∧
    ¬ Run.Always openHost.step (fun s => WorkBounded s.log) .start
      (acceptedOffer ++ [dispatched, dispatched]) := by
  have hexecuted : (executedJobs ⟨"b3:alice"⟩ (Run.final openHost.step .start
      (acceptedOffer ++ [dispatched, dispatched])).log).length = 2 := by decide
  have haccepted : (acceptedJobs ⟨"b3:alice"⟩ (Run.final openHost.step .start
      (acceptedOffer ++ [dispatched, dispatched])).log).length = 1 := by decide
  refine ⟨hexecuted, haccepted, fun hall => ?_⟩
  have hbound := hall.last.counted ⟨"b3:alice"⟩
  omega

end Duckton.Node
