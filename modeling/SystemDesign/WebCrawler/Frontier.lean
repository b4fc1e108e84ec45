import SystemDesign.Lib.Heapq

/-!
The URL frontier (`frontier.py`) and the scheduler it stands for.

A call gets the reading of the monotonic clock; times are exact numbers. The naive scheduler keeps the pending items in
one list and scans it.
-/

namespace SystemDesign.WebCrawler

open Heapq

/-! ### Entries -/

/-- `FrontierEntry`, with `priority.value`. -/
structure FrontierEntry where
  url : String
  priority : ℕ
  depth : ℕ
  host : String
  deriving DecidableEq

/-- `(entry.priority.value, self._counter, entry)`; two different items never have one counter. -/
structure Item where
  priority : ℕ
  counter : ℕ
  entry : FrontierEntry
  deriving DecidableEq

/-- What a tuple is compared by. -/
def Item.rank (item : Item) : ℕ ×ₗ ℕ := toLex (item.priority, item.counter)

def Item.key (item : Item) : (ℕ ×ₗ ℕ) ×ₗ (String ×ₗ ℕ ×ₗ ℕ ×ₗ String) :=
  toLex (item.rank, toLex (item.entry.url, toLex (item.entry.priority, toLex (item.entry.depth, item.entry.host))))

theorem Item.key_injective : Function.Injective Item.key := by
  rintro ⟨priority, counter, url, entryPriority, depth, host⟩ ⟨priority', counter', url', entryPriority', depth', host'⟩ h
  simp only [Item.key, Item.rank, toLex_inj, Prod.mk.injEq] at h
  obtain ⟨⟨rfl, rfl⟩, rfl, rfl, rfl, rfl⟩ := h
  rfl

instance : LinearOrder Item := LinearOrder.lift' Item.key Item.key_injective

theorem Item.rank_le {item other : Item} (h : item ≤ other) : item.rank ≤ other.rank :=
  (Prod.Lex.le_iff.mp (show item.key ≤ other.key from h)).elim (fun hlt => hlt.le) fun heq => heq.1.le

/-- `(due, host)` -/
structure Wakeup where
  due : ℚ
  host : String

def Wakeup.key (wakeup : Wakeup) : ℚ ×ₗ String := toLex (wakeup.due, wakeup.host)

instance : LinearOrder Wakeup := LinearOrder.lift' Wakeup.key fun x y h => by
  cases x
  cases y
  simpa [Wakeup.key] using h

theorem Wakeup.due_le {wakeup other : Wakeup} (h : wakeup ≤ other) : wakeup.due ≤ other.due :=
  (Prod.Lex.le_iff.mp (show wakeup.key ≤ other.key from h)).elim (fun hlt => hlt.le) fun heq => heq.1.le

/-! ### The frontier -/

/-- `URLFrontier`; a host without a queue has the empty one. -/
structure URLFrontier where
  frontQueue : List Item
  counter : ℕ
  backQueues : String → List Item
  delayed : List Wakeup
  waiting : String → Option ℚ
  hostLastAccess : String → Option ℚ
  size : ℕ
  activeHosts : String → Bool

namespace URLFrontier

def new : URLFrontier := ⟨[], 0, fun _ => [], [], fun _ => none, fun _ => none, 0, fun _ => false⟩

variable (perHostDelay : ℚ)

/-- `_schedule` -/
def schedule (f : URLFrontier) (host : String) (now : ℚ) : URLFrontier :=
  if f.activeHosts host ∨ (f.waiting host).isSome then f
  else
    match f.backQueues host with
    | [] => f
    | head :: _ =>
      let due := match f.hostLastAccess host with
        | none => now
        | some lastAccess => lastAccess + perHostDelay
      if now < due then
        { f with
          waiting := Function.update f.waiting host (some due)
          delayed := heappush f.delayed ⟨due, host⟩ }
      else { f with frontQueue := heappush f.frontQueue head }

/-- `put` -/
def put (f : URLFrontier) (entry : FrontierEntry) (now : ℚ) : URLFrontier :=
  let item : Item := ⟨entry.priority, f.counter, entry⟩
  let queue := heappush (f.backQueues entry.host) item
  let f := { f with
    backQueues := Function.update f.backQueues entry.host queue
    counter := f.counter + 1
    size := f.size + 1 }
  if queue.head? = some item then f.schedule perHostDelay entry.host now else f

/-- The first loop of `get`: hosts whose delay is over. -/
def wake (now : ℚ) : ℕ → URLFrontier → URLFrontier
  | 0, f => f
  | fuel + 1, f =>
    match heappop f.delayed with
    | none => f
    | some (wakeup, delayed) =>
      if wakeup.due ≤ now then
        let f := { f with delayed }
        if f.waiting wakeup.host = some wakeup.due then
          wake now fuel
            (schedule perHostDelay { f with waiting := Function.update f.waiting wakeup.host none } wakeup.host now)
        else wake now fuel f
      else f

/-- What `get` does with the head that it has found. -/
def dequeue (f : URLFrontier) (reserve : Bool) (host : String) (now : ℚ) : URLFrontier :=
  let queue := match heappop (f.backQueues host) with
    | none => []
    | some (_, rest) => rest
  let f := { f with
    backQueues := Function.update f.backQueues host queue
    size := f.size - 1
    hostLastAccess := Function.update f.hostLastAccess host (some now) }
  if reserve then { f with activeHosts := Function.update f.activeHosts host true }
  else f.schedule perHostDelay host now

/-- The second loop of `get`: published heads, without those that are none any more. -/
def take (reserve : Bool) (now : ℚ) : ℕ → URLFrontier → Option FrontierEntry × URLFrontier
  | 0, f => (none, f)
  | fuel + 1, f =>
    match heappop f.frontQueue with
    | none => (none, f)
    | some (item, frontQueue) =>
      let f := { f with frontQueue }
      let host := item.entry.host
      if ((f.backQueues host).head?.map Item.counter ≠ some item.counter ∨ f.activeHosts host) ∨
          (f.waiting host).isSome then take reserve now fuel f
      else (some item.entry, f.dequeue perHostDelay reserve host now)

/-- `get` -/
def get (f : URLFrontier) (reserve : Bool) (now : ℚ) : Option FrontierEntry × URLFrontier :=
  let f := wake perHostDelay now f.delayed.length f
  take perHostDelay reserve now f.frontQueue.length f

/-- `complete` -/
def complete (f : URLFrontier) (entry : FrontierEntry) (now : ℚ) : URLFrontier :=
  schedule perHostDelay { f with
    activeHosts := Function.update f.activeHosts entry.host false
    hostLastAccess := Function.update f.hostLastAccess entry.host (some now)
    waiting := Function.update f.waiting entry.host none } entry.host now

end URLFrontier

/-! ### The naive scheduler -/

/-- The pending items in one list, and of the hosts which are reserved and when they were last accessed. -/
structure Scheduler where
  pending : List Item
  counter : ℕ
  hostLastAccess : String → Option ℚ
  activeHosts : String → Bool

namespace Scheduler

def new : Scheduler := ⟨[], 0, fun _ => none, fun _ => false⟩

variable (perHostDelay : ℚ)

/-- The host is not reserved, and its last access is long enough ago. -/
def Eligible (n : Scheduler) (now : ℚ) (host : String) : Prop :=
  n.activeHosts host = false ∧ ∀ lastAccess ∈ n.hostLastAccess host, lastAccess + perHostDelay ≤ now

instance (n : Scheduler) (now : ℚ) (host : String) : Decidable (n.Eligible perHostDelay now host) :=
  inferInstanceAs (Decidable (_ ∧ _))

/-- The least pending item of an eligible host. -/
def scan (n : Scheduler) (now : ℚ) : Option Item :=
  (n.pending.filter fun item => n.Eligible perHostDelay now item.entry.host).min?

def put (n : Scheduler) (entry : FrontierEntry) : Scheduler :=
  { n with
    pending := n.pending ++ [⟨entry.priority, n.counter, entry⟩]
    counter := n.counter + 1 }

def get (n : Scheduler) (reserve : Bool) (now : ℚ) : Option FrontierEntry × Scheduler :=
  match n.scan perHostDelay now with
  | none => (none, n)
  | some item =>
    (some item.entry, { n with
      pending := n.pending.erase item
      hostLastAccess := Function.update n.hostLastAccess item.entry.host (some now)
      activeHosts := if reserve then Function.update n.activeHosts item.entry.host true else n.activeHosts })

def complete (n : Scheduler) (entry : FrontierEntry) (now : ℚ) : Scheduler :=
  { n with
    activeHosts := Function.update n.activeHosts entry.host false
    hostLastAccess := Function.update n.hostLastAccess entry.host (some now) }

end Scheduler

/-! ### Runs -/

inductive Call where
  | put (entry : FrontierEntry)
  | get (reserve : Bool)
  | complete (entry : FrontierEntry)

def URLFrontier.step (perHostDelay : ℚ) (f : URLFrontier) (now : ℚ) : Call → Option FrontierEntry × URLFrontier
  | .put entry => (none, f.put perHostDelay entry now)
  | .get reserve => f.get perHostDelay reserve now
  | .complete entry => (none, f.complete perHostDelay entry now)

def Scheduler.step (perHostDelay : ℚ) (n : Scheduler) (now : ℚ) : Call → Option FrontierEntry × Scheduler
  | .put entry => (none, n.put entry)
  | .get reserve => n.get perHostDelay reserve now
  | .complete entry => (none, n.complete entry now)

/-- What the calls return, and the state after them. -/
def run {σ : Type} (step : σ → ℚ → Call → Option FrontierEntry × σ) (s : σ) :
    List (ℚ × Call) → List (Option FrontierEntry) × σ
  | [] => ([], s)
  | (now, call) :: calls =>
    let (result, s) := step s now call
    let (results, s) := run step s calls
    (result :: results, s)

/-- The entries that were put. -/
def puts (calls : List (ℚ × Call)) : List FrontierEntry :=
  calls.filterMap fun call => match call.2 with
    | .put entry => some entry
    | _ => none

/-- The hosts that were accessed, when, and whether an entry of the host was returned. -/
def accesses : List (ℚ × Call) → List (Option FrontierEntry) → List (String × ℚ × Bool)
  | (now, .get _) :: calls, some entry :: results => (entry.host, now, true) :: accesses calls results
  | (now, .complete entry) :: calls, _ :: results => (entry.host, now, false) :: accesses calls results
  | _ :: calls, _ :: results => accesses calls results
  | _, _ => []

end SystemDesign.WebCrawler
