/-
  Reservations from shared counters by tasks that run side by side.

  A call takes an amount from several counters, one after the other, each with a compare-and-swap
  loop; where one of them has no room it gives back what it has, in an order of its own, and fails.
  A call that got everything holds a lease until the lease is dropped. Every access to a counter is
  one step, and the steps of the tasks come in any order.

  The value that a loop last saw of its counter is part of the event and may be anything: it may be
  old, and a weak compare-and-swap may fail although it is right. What counts is only that a swap
  succeeds on the value that is there.

  `balanced_step` is the one invariant: each counter holds what the tasks hold of it, within its
  limit. That leases are within the limits, that no subtraction goes below zero and that the
  counters return to zero all follow from it.
-/
import Mathlib.Algebra.Order.BigOperators.Group.List
import Mathlib.Algebra.Order.Group.Nat
import Mathlib.Algebra.Ring.Nat
import Duckton.Lib.Run

namespace Reserve

structure Item (κ : Type) where
  counter : κ
  amount : Nat
  deriving DecidableEq

/-- What is taken next, and what is given back if it cannot be had. -/
structure Attempt (κ : Type) where
  item : Item κ
  undo : List (Item κ)
  deriving DecidableEq

/-- A call: its attempts, and what the drop of its lease gives back. -/
structure Script (κ : Type) where
  attempts : List (Attempt κ)
  lease : List (Item κ)
  deriving DecidableEq

def items {κ : Type} (attempts : List (Attempt κ)) : List (Item κ) :=
  attempts.map (·.item)

/-- Counters with their width in bits, and how far each may go. -/
structure Pool (κ : Type) where
  width : κ → Nat
  limit : κ → Nat
  fits : ∀ k, limit k < 2 ^ width k

inductive Task (γ κ : Type) where
  | taking (call : γ) (taken : List (Item κ)) (todo : List (Attempt κ))
  | live (call : γ)
  | giving (call : γ) (rest : List (Item κ))
  deriving DecidableEq

structure State (γ κ : Type) where
  value : κ → Nat
  tasks : List (Task γ κ)

inductive Event (γ : Type) where
  | call (c : γ)
  | advance (task seen : Nat) (spurious : Bool)
  | drop (task : Nat)

variable {γ κ : Type} [DecidableEq κ]

/-! ## Steps -/

/-- The next step of a task. A call that has nothing left to take returns its lease. -/
def Task.advance (pool : Pool κ) (value : κ → Nat) (seen : Nat) (spurious : Bool) :
    Task γ κ → (κ → Nat) × Task γ κ
  | .taking call taken (a :: todo) =>
    let next := seen + a.item.amount
    if 2 ^ pool.width a.item.counter ≤ next ∨ pool.limit a.item.counter < next then
      (value, .giving call a.undo)
    else if value a.item.counter = seen ∧ spurious = false then
      (Function.update value a.item.counter next, .taking call (taken ++ [a.item]) todo)
    else (value, .taking call taken (a :: todo))
  | .taking call _ [] => (value, .live call)
  | .live call => (value, .live call)
  | .giving call (item :: rest) =>
    let size := 2 ^ pool.width item.counter
    (Function.update value item.counter ((value item.counter + size - item.amount) % size),
      .giving call rest)
  | .giving call [] => (value, .giving call [])

variable (script : γ → Script κ)

/-- Only a live lease can be dropped. -/
def Task.drop : Task γ κ → Task γ κ
  | .live call => .giving call (script call).lease
  | task => task

def step (pool : Pool κ) (script : γ → Script κ) (s : State γ κ) : Event γ → State γ κ
  | .call c => { s with tasks := s.tasks ++ [.taking c [] (script c).attempts] }
  | .advance i seen spurious =>
    match s.tasks[i]? with
    | none => s
    | some task =>
      let next := task.advance pool s.value seen spurious
      ⟨next.1, s.tasks.set i next.2⟩
  | .drop i =>
    match s.tasks[i]? with
    | none => s
    | some task => { s with tasks := s.tasks.set i (task.drop script) }

def start : State γ κ :=
  ⟨fun _ => 0, []⟩

/-! ## What the tasks hold -/

/-- How much of the counter `k` the items stand for. -/
def amountOf (k : κ) (held : List (Item κ)) : Nat :=
  (held.map fun item => if item.counter = k then item.amount else 0).sum

def Task.held : Task γ κ → List (Item κ)
  | .taking _ taken _ => taken
  | .live call => (script call).lease
  | .giving _ rest => rest

def State.total (s : State γ κ) (k : κ) : Nat :=
  (s.tasks.map fun task => amountOf k (task.held script)).sum

/-- With `taken` in hand, each attempt gives back all that was taken before it if it fails. -/
def FairFrom : List (Item κ) → List (Attempt κ) → Prop
  | _, [] => True
  | taken, a :: rest =>
    (∀ k, amountOf k a.undo = amountOf k taken) ∧ FairFrom (taken ++ [a.item]) rest

/-- A failing attempt gives back what was taken before it, a lease what was taken in all. -/
structure Script.Fair (p : Script κ) : Prop where
  undo : FairFrom [] p.attempts
  lease : ∀ k, amountOf k p.lease = amountOf k (items p.attempts)

/-- What a call has taken and what it has still to take make up its lease. -/
def Task.OnTrack : Task γ κ → Prop
  | .taking call taken todo => FairFrom taken todo ∧
    ∀ k, amountOf k (script call).lease = amountOf k taken + amountOf k (items todo)
  | _ => True

structure Balanced (pool : Pool κ) (script : γ → Script κ) (s : State γ κ) : Prop where
  value : ∀ k, s.value k = s.total script k
  limit : ∀ k, s.value k ≤ pool.limit k
  onTrack : ∀ task ∈ s.tasks, task.OnTrack script

theorem amountOf_cons (k : κ) (item : Item κ) (held : List (Item κ)) :
    amountOf k (item :: held) = (if item.counter = k then item.amount else 0) + amountOf k held := by
  unfold amountOf
  rw [List.map_cons, List.sum_cons]

theorem amountOf_concat (k : κ) (held : List (Item κ)) (item : Item κ) :
    amountOf k (held ++ [item]) = amountOf k held + if item.counter = k then item.amount else 0 := by
  unfold amountOf
  rw [List.map_append, List.sum_append]
  rfl

theorem sum_map_set {τ : Type} (f : τ → Nat) {ts : List τ} {i : Nat} {t : τ} (t' : τ)
    (h : ts[i]? = some t) : ((ts.set i t').map f).sum + f t = (ts.map f).sum + f t' := by
  induction ts generalizing i with
  | nil => cases h
  | cons u ts ih =>
    cases i with
    | zero =>
      obtain rfl : u = t := Option.some.inj h
      simp only [List.set_cons_zero, List.map_cons, List.sum_cons]
      omega
    | succ i =>
      have hts := ih h
      simp only [List.set_cons_succ, List.map_cons, List.sum_cons]
      omega

/-! ## The invariant -/

section Invariant

variable {pool : Pool κ} {script : γ → Script κ}

variable {value : κ → Nat}

/-- A successful exchange adds the item to the counter and to what is held. -/
theorem take_balance (hlimit : ∀ k, value k ≤ pool.limit k) (item : Item κ)
    (taken : List (Item κ)) (hroom : value item.counter + item.amount ≤ pool.limit item.counter)
    (k : κ) :
    let next := Function.update value item.counter (value item.counter + item.amount)
    next k ≤ pool.limit k ∧ next k + amountOf k taken = value k + amountOf k (taken ++ [item]) := by
  dsimp only
  rw [amountOf_concat]
  by_cases hk : k = item.counter
  · subst hk
    rw [Function.update_self, if_pos rfl]
    omega
  · rw [Function.update_of_ne hk, if_neg (Ne.symm hk)]
    exact ⟨hlimit k, rfl⟩

/-- A wrapping subtraction of no more than is there. -/
theorem wrapped_sub {value amount size : Nat} (hle : amount ≤ value) (hlt : value < size) :
    (value + size - amount) % size = value - amount := by
  rw [Nat.add_comm, Nat.add_sub_assoc hle, Nat.add_mod_left, Nat.mod_eq_of_lt (by omega)]

/-- What is given back leaves the counter and what is held. -/
theorem give_balance (hlimit : ∀ k, value k ≤ pool.limit k) {item : Item κ} {rest : List (Item κ)}
    (hheld : ∀ k, amountOf k (item :: rest) ≤ value k) (k : κ) :
    let size := 2 ^ pool.width item.counter
    let next := Function.update value item.counter
      ((value item.counter + size - item.amount) % size)
    next k ≤ pool.limit k ∧ next k + amountOf k (item :: rest) = value k + amountOf k rest := by
  have hk' := hheld k
  have hmax := hlimit k
  dsimp only
  rw [amountOf_cons] at hk' ⊢
  by_cases hk : k = item.counter
  · subst hk
    have hfits := pool.fits item.counter
    rw [if_pos rfl] at hk' ⊢
    rw [Function.update_self, wrapped_sub (by omega) (by omega)]
    omega
  · rw [Function.update_of_ne hk, if_neg (Ne.symm hk), Nat.zero_add]
    exact ⟨hmax, rfl⟩

variable {task : Task γ κ} {s : State γ κ}

/-- One task's step changes the counters by as much as it changes what the task holds. -/
theorem advance_balance (htrack : task.OnTrack script)
    (hheld : ∀ k, amountOf k (task.held script) ≤ value k) (hlimit : ∀ k, value k ≤ pool.limit k)
    (seen : Nat) (spurious : Bool) :
    let next := task.advance pool value seen spurious
    next.2.OnTrack script ∧ ∀ k, next.1 k ≤ pool.limit k ∧
      next.1 k + amountOf k (task.held script) = value k + amountOf k (next.2.held script) := by
  cases task with
  | taking call taken todo =>
    obtain ⟨hfair, hlease⟩ := htrack
    cases todo with
    | nil =>
      -- the call returns: the lease is what was taken
      refine ⟨trivial, fun k => ⟨hlimit k, ?_⟩⟩
      show value k + amountOf k taken = value k + amountOf k (script call).lease
      rw [hlease]
      rfl
    | cons a todo =>
      unfold Task.advance
      dsimp only
      split_ifs with hfull hswap
      · -- no room: what was taken is given back
        refine ⟨trivial, fun k => ⟨hlimit k, ?_⟩⟩
        show value k + amountOf k taken = value k + amountOf k a.undo
        rw [hfair.1]
      · obtain ⟨rfl, _⟩ := hswap
        refine ⟨⟨hfair.2, fun k => ?_⟩, take_balance hlimit a.item taken (by omega)⟩
        rw [hlease, amountOf_concat, Nat.add_assoc]
        exact congrArg _ (amountOf_cons k a.item (items todo))
      · exact ⟨⟨hfair, hlease⟩, fun k => ⟨hlimit k, rfl⟩⟩
  | live call => exact ⟨trivial, fun k => ⟨hlimit k, rfl⟩⟩
  | giving call rest =>
    cases rest with
    | nil => exact ⟨trivial, fun k => ⟨hlimit k, rfl⟩⟩
    | cons item rest => exact ⟨trivial, give_balance hlimit hheld⟩

/-- A lease that begins to be dropped still holds all of it. -/
theorem drop_balance (htrack : task.OnTrack script) :
    (task.drop script).OnTrack script ∧ (task.drop script).held script = task.held script := by
  cases task with
  | taking call taken todo => exact ⟨htrack, rfl⟩
  | live call | giving call rest => exact ⟨trivial, rfl⟩

theorem Balanced.held_le_value (hs : Balanced pool script s) (h : task ∈ s.tasks) (k : κ) :
    amountOf k (task.held script) ≤ s.value k :=
  hs.value k ▸ List.single_le_sum (fun _ _ => Nat.zero_le _) _ (List.mem_map_of_mem h)

/-- Replacing a task by one that is on track and balanced against the new values. -/
theorem Balanced.set (hs : Balanced pool script s) {i : Nat} {task' : Task γ κ}
    (hi : s.tasks[i]? = some task) (htrack : task'.OnTrack script)
    (hvalue : ∀ k, value k ≤ pool.limit k ∧
      value k + amountOf k (task.held script) = s.value k + amountOf k (task'.held script)) :
    Balanced pool script ⟨value, s.tasks.set i task'⟩ := by
  refine ⟨fun k => ?_, fun k => (hvalue k).1, fun t ht => ?_⟩
  · have hset := sum_map_set (fun t => amountOf k (Task.held script t)) task' hi
    have hold := hs.value k
    have hnew := (hvalue k).2
    show value k = ((s.tasks.set i task').map _).sum
    unfold State.total at hold
    omega
  · rcases List.mem_or_eq_of_mem_set ht with ht | rfl
    · exact hs.onTrack t ht
    · exact htrack

theorem balanced_step (hscript : ∀ c, (script c).Fair) (s : State γ κ) (e : Event γ)
    (hs : Balanced pool script s) : Balanced pool script (step pool script s e) := by
  cases e with
  | call c =>
    refine ⟨fun k => ?_, hs.limit, fun t ht => ?_⟩
    · show s.value k = ((s.tasks ++ [_]).map _).sum
      rw [List.map_append, List.sum_append]
      exact hs.value k
    · rcases List.mem_append.mp ht with ht | ht
      · exact hs.onTrack t ht
      · obtain rfl := List.mem_singleton.mp ht
        exact ⟨(hscript c).undo, fun k => ((hscript c).lease k).trans (Nat.zero_add _).symm⟩
  | advance i seen spurious =>
    rw [step]
    cases hi : s.tasks[i]? with
    | none => exact hs
    | some task =>
      have hmem := List.mem_of_getElem? hi
      obtain ⟨htrack, hbalance⟩ := advance_balance (hs.onTrack task hmem)
        (hs.held_le_value hmem) hs.limit seen spurious
      exact hs.set hi htrack hbalance
  | drop i =>
    rw [step]
    cases hi : s.tasks[i]? with
    | none => exact hs
    | some task =>
      obtain ⟨htrack, hheld⟩ := drop_balance (hs.onTrack task (List.mem_of_getElem? hi))
      exact hs.set hi htrack fun k => ⟨hs.limit k, by rw [hheld]⟩

theorem always_balanced (hscript : ∀ c, (script c).Fair) (es : List (Event γ)) :
    Run.Always (step pool script) (Balanced pool script) start es :=
  Run.always_of_invariant (balanced_step hscript)
    ⟨fun _ => rfl, fun _ => Nat.zero_le _, fun _ h => absurd h List.not_mem_nil⟩ es

/-! ## Consequences -/

/-- The sum of `demand` over the leases that are live. -/
def State.liveSum (demand : γ → Nat) (s : State γ κ) : Nat :=
  (s.tasks.map fun
    | .live call => demand call
    | _ => 0).sum

/-- Live leases stay within the limit of every counter that they hold their demand of. -/
theorem Balanced.liveSum_le (hs : Balanced pool script s) {demand : γ → Nat} {k : κ}
    (hdemand : ∀ c, demand c ≤ amountOf k (script c).lease) : s.liveSum demand ≤ pool.limit k := by
  have hle : s.liveSum demand ≤ s.total script k := by
    refine List.sum_le_sum fun task _ => ?_
    cases task with
    | live call => exact hdemand call
    | taking call taken todo | giving call rest => exact Nat.zero_le _
  exact Nat.le_trans (hs.value k ▸ hle) (hs.limit k)

/-- A task that has returned without a lease, or whose lease is dropped. -/
def Task.finished : Task γ κ → Bool
  | .giving _ [] => true
  | _ => false

theorem Balanced.value_eq_zero (hs : Balanced pool script s)
    (hdone : ∀ task ∈ s.tasks, task.finished = true) (k : κ) : s.value k = 0 := by
  rw [hs.value k]
  refine List.sum_eq_zero fun n hn => ?_
  obtain ⟨task, htask, rfl⟩ := List.mem_map.mp hn
  have hfinished := hdone task htask
  cases task with
  | taking call taken todo | live call => cases hfinished
  | giving call rest =>
    cases rest with
    | nil => rfl
    | cons item rest => cases hfinished

/-- The arithmetic of the event is exact: what is subtracted is there, and what is stored fits. -/
def Exact (pool : Pool κ) (s : State γ κ) : Event γ → Prop
  | .advance i seen spurious =>
    match s.tasks[i]? with
    | some (.giving _ (item :: _)) => item.amount ≤ s.value item.counter
    | some task => ∀ k, (task.advance pool s.value seen spurious).1 k < 2 ^ pool.width k
    | none => True
  | _ => True

theorem Balanced.exact (hs : Balanced pool script s) (e : Event γ) :
    Exact pool s e := by
  cases e with
  | call c | drop i => trivial
  | advance i seen spurious =>
    rw [Exact]
    cases hi : s.tasks[i]? with
    | none => trivial
    | some task =>
      have hmem := List.mem_of_getElem? hi
      obtain ⟨-, hbalance⟩ := advance_balance (hs.onTrack task hmem)
        (hs.held_le_value hmem) hs.limit seen spurious
      have hfits : ∀ k, (task.advance pool s.value seen spurious).1 k < 2 ^ pool.width k :=
        fun k => Nat.lt_of_le_of_lt (hbalance k).1 (pool.fits k)
      cases task with
      | live call | taking call taken todo => exact hfits
      | giving call rest =>
        cases rest with
        | nil => exact hfits
        | cons item rest =>
          have hheld := hs.held_le_value hmem item.counter
          change amountOf item.counter (item :: rest) ≤ _ at hheld
          rw [amountOf_cons, if_pos rfl] at hheld
          show item.amount ≤ s.value item.counter
          omega

end Invariant

end Reserve
