import SystemDesign.WebCrawler.Frontier

/-!
The frontier is the naive scheduler.

The head of every host that is neither reserved nor waiting is in the ready heap, and every waiting host has its wake-up
(`Matches`). So after the first loop of `get` exactly the eligible hosts have their heads in the ready heap.
-/

namespace SystemDesign.WebCrawler

open List hiding le_antisymm lt_irrefl not_le not_lt
open Function (update update_of_ne update_self)
open Heapq

variable {perHostDelay now : ℚ}

/-- The pending items of a host. -/
def Scheduler.queue (n : Scheduler) (host : String) : List Item := n.pending.filter (·.entry.host = host)

variable {item : Item} {host : String}

theorem Scheduler.mem_queue {n : Scheduler} : item ∈ n.queue host ↔ item ∈ n.pending ∧ item.entry.host = host := by
  simp [Scheduler.queue]

/-- The frontier holds what the scheduler holds; but the head of the host `skip` need not be published. -/
structure Matches (perHostDelay now : ℚ) (skip : Option String) (f : URLFrontier) (n : Scheduler) : Prop where
  counter : f.counter = n.counter
  active : f.activeHosts = n.activeHosts
  access : f.hostLastAccess = n.hostLastAccess
  size : f.size = n.pending.length
  fresh : ∀ item ∈ n.pending, item.counter < n.counter
  distinct : (n.pending.map Item.counter).Nodup
  heap : ∀ host, IsHeap (f.backQueues host)
  queue : ∀ host, (f.backQueues host).Perm (n.queue host)
  frontHeap : IsHeap f.frontQueue
  front : ∀ item ∈ f.frontQueue, item.counter < n.counter ∧
    ∀ other ∈ n.pending, other.counter = item.counter → other = item
  delayedHeap : IsHeap f.delayed
  waiting : ∀ host due, f.waiting host = some due → f.activeHosts host = false ∧
    (∃ lastAccess, f.hostLastAccess host = some lastAccess ∧ due = lastAccess + perHostDelay) ∧ ⟨due, host⟩ ∈ f.delayed
  ready : ∀ host, some host ≠ skip → f.activeHosts host = false → f.waiting host = none →
    ∀ head, (f.backQueues host).head? = some head → head ∈ f.frontQueue ∧ n.Eligible perHostDelay now host
  clock : ∀ host, ∀ lastAccess ∈ n.hostLastAccess host, lastAccess ≤ now

variable {f : URLFrontier} {n : Scheduler} {skip : Option String}

theorem matches_new (perHostDelay now : ℚ) : Matches perHostDelay now none URLFrontier.new Scheduler.new where
  counter := rfl
  active := rfl
  access := rfl
  size := rfl
  fresh _ h := absurd h not_mem_nil
  distinct := nodup_nil
  heap _ := isHeap_nil
  queue _ := Perm.refl _
  frontHeap := isHeap_nil
  front _ h := absurd h not_mem_nil
  delayedHeap := isHeap_nil
  waiting _ _ h := by cases h
  ready _ _ _ _ _ h := by cases h
  clock _ _ h := by cases h

theorem Matches.later (h : Matches perHostDelay now skip f n) {now' : ℚ} (hnow : now ≤ now') :
    Matches perHostDelay now' skip f n :=
  { h with
    ready := fun host hskip hactive hwaiting head hhead =>
      have ⟨hmem, heligible⟩ := h.ready host hskip hactive hwaiting head hhead
      ⟨hmem, heligible.1, fun lastAccess hlast => (heligible.2 lastAccess hlast).trans hnow⟩
    clock := fun host lastAccess hlast => (h.clock host lastAccess hlast).trans hnow }

theorem schedule_busy (hbusy : f.activeHosts host = true ∨ (f.waiting host).isSome = true) :
    f.schedule perHostDelay host now = f := if_pos hbusy

theorem schedule_empty (hempty : f.backQueues host = []) : f.schedule perHostDelay host now = f := by
  unfold URLFrontier.schedule
  split
  · rfl
  · rw [hempty]

/-- A host that is neither reserved nor waiting gets a wake-up if its last access is too near, and is published otherwise. -/
theorem schedule_idle (perHostDelay now : ℚ) {head : Item} {rest : List Item} (hactive : f.activeHosts host = false)
    (hwaiting : f.waiting host = none) (hqueue : f.backQueues host = head :: rest) :
    (∃ lastAccess, f.hostLastAccess host = some lastAccess ∧ now < lastAccess + perHostDelay ∧
      f.schedule perHostDelay host now = { f with
        waiting := update f.waiting host (some (lastAccess + perHostDelay))
        delayed := heappush f.delayed ⟨lastAccess + perHostDelay, host⟩ }) ∨
    ((∀ lastAccess ∈ f.hostLastAccess host, lastAccess + perHostDelay ≤ now) ∧
      f.schedule perHostDelay host now = { f with frontQueue := heappush f.frontQueue head }) := by
  have hidle : ¬ (f.activeHosts host = true ∨ (f.waiting host).isSome = true) := by
    rw [hactive, hwaiting]
    decide
  unfold URLFrontier.schedule
  rw [if_neg hidle, hqueue]
  cases haccess : f.hostLastAccess host with
  | none =>
    refine .inr ⟨fun _ h => (by cases h), ?_⟩
    exact if_neg (lt_irrefl now)
  | some lastAccess =>
    by_cases hdue : now < lastAccess + perHostDelay
    · exact .inl ⟨lastAccess, rfl, hdue, if_pos hdue⟩
    · refine .inr ⟨fun _ h => ?_, if_neg hdue⟩
      rw [← Option.some.inj h]
      exact not_lt.mp hdue

/-- After `_schedule` the host is no exception any more. -/
theorem Matches.schedule (h : Matches perHostDelay now (some host) f n) :
    Matches perHostDelay now none (f.schedule perHostDelay host now) n := by
  have hothers (host' : String) (hne : host' ≠ host) := h.ready host' (fun heq => hne (Option.some.inj heq))
  by_cases hbusy : f.activeHosts host = true ∨ (f.waiting host).isSome = true
  · rw [schedule_busy hbusy]
    refine { h with ready := fun host' _ hactive hwaiting => ?_ }
    by_cases heq : host' = host
    · subst heq
      rw [hactive, hwaiting] at hbusy
      exact absurd hbusy (by decide)
    · exact hothers host' heq hactive hwaiting
  · have hactive : f.activeHosts host = false := by simpa using fun h => hbusy (.inl h)
    have hwaiting : f.waiting host = none := by simpa using fun h => hbusy (.inr h)
    cases hqueue : f.backQueues host with
    | nil =>
      rw [schedule_empty hqueue]
      refine { h with ready := fun host' _ hactive hwaiting head hhead => ?_ }
      by_cases heq : host' = host
      · subst heq
        rw [hqueue] at hhead
        cases hhead
      · exact hothers host' heq hactive hwaiting head hhead
    | cons head rest =>
      rcases schedule_idle perHostDelay now hactive hwaiting hqueue with
        ⟨lastAccess, haccess, -, heq⟩ | ⟨hdue, heq⟩
      · rw [heq]
        obtain ⟨hheap, hperm⟩ := heappush_spec h.delayedHeap ⟨lastAccess + perHostDelay, host⟩
        refine { h with delayedHeap := hheap, waiting := fun host' due hdue => ?_, ready := fun host' _ hactive' hwaiting' => ?_ }
        · by_cases hhost : host' = host
          · subst hhost
            obtain rfl : lastAccess + perHostDelay = due := by simpa using hdue
            exact ⟨hactive, ⟨lastAccess, haccess, rfl⟩, hperm.mem_iff.mpr mem_cons_self⟩
          · obtain ⟨hfree, hlast, hmem⟩ := h.waiting host' due (by simpa [hhost] using hdue)
            exact ⟨hfree, hlast, hperm.mem_iff.mpr (mem_cons_of_mem _ hmem)⟩
        · by_cases hhost : host' = host
          · subst hhost
            simp at hwaiting'
          · exact hothers host' hhost hactive' (by simpa [hhost] using hwaiting')
      · rw [heq]
        obtain ⟨hheap, hperm⟩ := heappush_spec h.frontHeap head
        have hpending : head ∈ n.pending ∧ head.entry.host = host :=
          Scheduler.mem_queue.mp ((h.queue host).mem_iff.mp (hqueue ▸ mem_cons_self))
        refine { h with frontHeap := hheap, front := fun item hitem => ?_, ready := fun host' _ hactive' hwaiting' => ?_ }
        · rcases mem_cons.mp (hperm.mem_iff.mp hitem) with rfl | hitem
          · exact ⟨h.fresh _ hpending.1, fun other hother hcounter =>
              inj_on_of_nodup_map h.distinct hother hpending.1 hcounter⟩
          · exact h.front item hitem
        · by_cases hhost : host' = host
          · subst hhost
            rintro head' hhead'
            obtain rfl : head = head' := by simpa [hqueue] using hhead'
            refine ⟨hperm.mem_iff.mpr mem_cons_self, h.active ▸ hactive, fun lastAccess hlast => ?_⟩
            exact hdue lastAccess (h.access ▸ hlast)
          · intro head' hhead'
            obtain ⟨hmem, heligible⟩ := hothers host' hhost hactive' hwaiting' head' hhead'
            exact ⟨hperm.mem_iff.mpr (mem_cons_of_mem _ hmem), heligible⟩

/-! ### The first loop -/

theorem schedule_delayed (hdue : ∀ lastAccess ∈ f.hostLastAccess host, lastAccess + perHostDelay ≤ now) :
    (f.schedule perHostDelay host now).delayed = f.delayed := by
  by_cases hbusy : f.activeHosts host = true ∨ (f.waiting host).isSome = true
  · rw [schedule_busy hbusy]
  · have hactive : f.activeHosts host = false := by simpa using fun h => hbusy (.inl h)
    have hwaiting : f.waiting host = none := by simpa using fun h => hbusy (.inr h)
    cases hqueue : f.backQueues host with
    | nil => rw [schedule_empty hqueue]
    | cons head rest =>
      rcases schedule_idle perHostDelay now hactive hwaiting hqueue with
        ⟨lastAccess, haccess, hlt, -⟩ | ⟨-, heq⟩
      · exact absurd (hdue lastAccess haccess) (not_le.mpr hlt)
      · rw [heq]

/-- After the first loop all wake-ups are later. -/
theorem Matches.wake (fuel : ℕ) (hfuel : f.delayed.length ≤ fuel) (h : Matches perHostDelay now none f n) :
    Matches perHostDelay now none (f.wake perHostDelay now fuel) n ∧
      ∀ wakeup ∈ (f.wake perHostDelay now fuel).delayed, now < wakeup.due := by
  induction fuel generalizing f with
  | zero =>
    refine ⟨h, fun wakeup hmem => ?_⟩
    rw [URLFrontier.wake, length_eq_zero_iff.mp (Nat.le_zero.mp hfuel)] at hmem
    exact absurd hmem not_mem_nil
  | succ fuel ih =>
    unfold URLFrontier.wake
    rcases heappop_cases h.delayedHeap with ⟨hnil, hpop⟩ | ⟨wakeup, delayed, hpop, hheap, hperm, hleast, -⟩
    · rw [hpop]
      exact ⟨h, fun wakeup hmem => absurd (hnil ▸ hmem) not_mem_nil⟩
    · rw [hpop]
      dsimp only
      have hlength : delayed.length ≤ fuel := by
        have := hperm.length_eq
        rw [length_cons] at this
        omega
      by_cases hdue : wakeup.due ≤ now
      · rw [if_pos hdue]
        by_cases hwaiting : f.waiting wakeup.host = some wakeup.due
        · rw [if_pos hwaiting]
          obtain ⟨hfree, ⟨lastAccess, haccess, hsum⟩, -⟩ := h.waiting _ _ hwaiting
          refine ih ?_ (Matches.schedule { h with delayedHeap := hheap, waiting := ?_, ready := ?_ })
          · refine (congrArg List.length (schedule_delayed fun last hlast => ?_)).le.trans hlength
            obtain rfl : lastAccess = last := Option.some.inj (haccess.symm.trans hlast)
            exact hsum ▸ hdue
          · intro host due hhost
            by_cases heq : host = wakeup.host
            · subst heq
              simp at hhost
            · obtain ⟨hfree', hlast, hmem⟩ := h.waiting host due (by simpa [heq] using hhost)
              refine ⟨hfree', hlast, (mem_cons.mp (hperm.mem_iff.mp hmem)).resolve_left fun hsame => heq ?_⟩
              exact congrArg Wakeup.host hsame
          · intro host hskip hactive hnone
            have heq : host ≠ wakeup.host := fun heq => hskip (congrArg some heq)
            exact h.ready host (fun hcontra => by cases hcontra) hactive (by simpa [heq] using hnone)
        · rw [if_neg hwaiting]
          refine ih hlength { h with delayedHeap := hheap, waiting := fun host due hhost => ?_ }
          obtain ⟨hfree', hlast, hmem⟩ := h.waiting host due hhost
          refine ⟨hfree', hlast, (mem_cons.mp (hperm.mem_iff.mp hmem)).resolve_left fun hsame => hwaiting ?_⟩
          rw [← hsame]
          exact hhost
      · rw [if_neg hdue]
        exact ⟨h, fun other hmem => (not_le.mp hdue).trans_le (Wakeup.due_le (hleast other hmem))⟩

/-! ### The second loop -/

theorem scan_eq_some : n.scan perHostDelay now = some item ↔
    (item ∈ n.pending ∧ n.Eligible perHostDelay now item.entry.host) ∧
      ∀ other ∈ n.pending, n.Eligible perHostDelay now other.entry.host → item ≤ other := by
  unfold Scheduler.scan
  rw [min?_eq_some_iff]
  simp only [mem_filter, decide_eq_true_eq, and_imp]

theorem scan_eq_none : n.scan perHostDelay now = none ↔
    ∀ item ∈ n.pending, ¬ n.Eligible perHostDelay now item.entry.host := by
  unfold Scheduler.scan
  rw [min?_eq_none_iff, filter_eq_nil_iff]
  simp only [decide_eq_true_eq]

/-- The head of every eligible host is published when no wake-up is due. -/
theorem Matches.published (h : Matches perHostDelay now none f n) (hlater : ∀ wakeup ∈ f.delayed, now < wakeup.due)
    (hmem : item ∈ n.pending) (heligible : n.Eligible perHostDelay now item.entry.host) :
    ∃ head ∈ f.frontQueue, (f.backQueues item.entry.host).head? = some head ∧ head ≤ item := by
  have hqueued : item ∈ f.backQueues item.entry.host := (h.queue _).mem_iff.mpr (Scheduler.mem_queue.mpr ⟨hmem, rfl⟩)
  cases hqueue : f.backQueues item.entry.host with
  | nil => exact absurd (hqueue ▸ hqueued) not_mem_nil
  | cons head rest =>
    have hactive : f.activeHosts item.entry.host = false := h.active ▸ heligible.1
    have hwaiting : f.waiting item.entry.host = none := by
      rw [Option.eq_none_iff_forall_ne_some]
      intro due hdue
      obtain ⟨-, ⟨lastAccess, haccess, rfl⟩, hwakeup⟩ := h.waiting _ due hdue
      exact absurd (heligible.2 lastAccess (h.access ▸ haccess)) (not_le.mpr (hlater _ hwakeup))
    have hhead : (f.backQueues item.entry.host).head? = some head := by rw [hqueue]; rfl
    refine ⟨head, (h.ready _ (fun hcontra => by cases hcontra) hactive hwaiting head hhead).1, rfl, ?_⟩
    exact (h.heap item.entry.host).head_le hqueue item hqueued

/-- The scheduler without an item. -/
def Scheduler.without (n : Scheduler) (item : Item) (host : String) (now : ℚ) (active : String → Bool) : Scheduler :=
  ⟨n.pending.erase item, n.counter, update n.hostLastAccess host (some now), active⟩

theorem queue_without (hmem : item ∈ n.pending) (host host' : String) (now : ℚ) (active : String → Bool) :
    (n.queue host').Perm (if item.entry.host = host' then item :: (n.without item host now active).queue host'
      else (n.without item host now active).queue host') := by
  have hperm := (perm_cons_erase hmem).filter fun other => decide (other.entry.host = host')
  rw [filter_cons] at hperm
  simp only [decide_eq_true_eq] at hperm
  exact hperm

/-- The frontier without the head of a host. -/
def URLFrontier.without (f : URLFrontier) (rest : List Item) (host : String) (now : ℚ) (active : String → Bool) :
    URLFrontier :=
  { f with
    backQueues := update f.backQueues host rest
    size := f.size - 1
    hostLastAccess := update f.hostLastAccess host (some now)
    activeHosts := active }

theorem Matches.without {host : String} (h : Matches perHostDelay now (some host) f n) {item : Item} {rest : List Item}
    (hhost : item.entry.host = host) (hmem : item ∈ n.pending) (hperm : (f.backQueues host).Perm (item :: rest))
    (hheap : IsHeap rest) (hwaiting : f.waiting host = none) (active : String → Bool)
    (hothers : ∀ host', host' ≠ host → active host' = n.activeHosts host') :
    Matches perHostDelay now (some host) (f.without rest host now active) (n.without item host now active) := by
  have hsubset {other : Item} (hother : other ∈ n.pending.erase item) : other ∈ n.pending := mem_of_mem_erase hother
  exact {
    counter := h.counter
    active := rfl
    access := by
      show update f.hostLastAccess host (some now) = update n.hostLastAccess host (some now)
      rw [h.access]
    size := by
      show f.size - 1 = (n.pending.erase item).length
      rw [length_erase_of_mem hmem, h.size]
    fresh := fun other hother => h.fresh other (hsubset hother)
    distinct := h.distinct.sublist (erase_sublist.map _)
    heap := fun host' => by
      show IsHeap (update f.backQueues host rest host')
      by_cases heq : host' = host
      · subst heq
        rwa [update_self]
      · rw [update_of_ne heq]
        exact h.heap host'
    queue := fun host' => by
      have hqueue := queue_without hmem host host' now active
      show (update f.backQueues host rest host').Perm ((n.without item host now active).queue host')
      by_cases heq : host' = host
      · subst heq
        rw [if_pos hhost] at hqueue
        rw [update_self]
        exact (perm_cons item).mp (hperm.symm.trans ((h.queue host').trans hqueue))
      · rw [if_neg (fun heq' => heq (heq'.symm.trans hhost))] at hqueue
        rw [update_of_ne heq]
        exact (h.queue host').trans hqueue
    frontHeap := h.frontHeap
    front := fun other hother => ⟨(h.front other hother).1, fun another hanother =>
      (h.front other hother).2 another (hsubset hanother)⟩
    delayedHeap := h.delayedHeap
    waiting := fun host' due hdue => by
      have hne : host' ≠ host := by
        rintro rfl
        have : f.waiting host' = some due := hdue
        rw [hwaiting] at this
        cases this
      obtain ⟨hfree, ⟨lastAccess, haccess, hsum⟩, hwakeup⟩ := h.waiting host' due hdue
      refine ⟨?_, ⟨lastAccess, ?_, hsum⟩, hwakeup⟩
      · show active host' = false
        rw [hothers host' hne, ← h.active, hfree]
      · show update f.hostLastAccess host (some now) host' = some lastAccess
        rw [update_of_ne hne, haccess]
    ready := fun host' hskip hactive hwaiting' head hhead => by
      have hne : host' ≠ host := fun heq => hskip (congrArg some heq)
      have hfree : f.activeHosts host' = false := by
        rw [h.active, ← hothers host' hne]
        exact hactive
      have hhead' : (update f.backQueues host rest host').head? = some head := hhead
      rw [update_of_ne hne] at hhead'
      obtain ⟨hpublished, heligible⟩ := h.ready host' hskip hfree hwaiting' head hhead'
      refine ⟨hpublished, hactive, fun lastAccess hlast => heligible.2 lastAccess ?_⟩
      have hlast' : update n.hostLastAccess host (some now) host' = some lastAccess := hlast
      rwa [update_of_ne hne] at hlast'
    clock := fun host' lastAccess hlast => by
      have hlast' : update n.hostLastAccess host (some now) host' = some lastAccess := hlast
      by_cases heq : host' = host
      · subst heq
        rw [update_self] at hlast'
        exact (Option.some.inj hlast').ge
      · rw [update_of_ne heq] at hlast'
        exact h.clock host' lastAccess hlast' }

theorem Matches.dequeue {item : Item} (h : Matches perHostDelay now (some item.entry.host) f n) (reserve : Bool)
    (hhead : (f.backQueues item.entry.host).head? = some item) (hmem : item ∈ n.pending)
    (hwaiting : f.waiting item.entry.host = none) :
    Matches perHostDelay now none (f.dequeue perHostDelay reserve item.entry.host now)
      (n.without item item.entry.host now
        (if reserve then update n.activeHosts item.entry.host true else n.activeHosts)) := by
  rcases heappop_cases (h.heap item.entry.host) with ⟨hnil, -⟩ | ⟨top, rest, hpop, hheap, hperm, -, htop⟩
  · rw [hnil] at hhead
    cases hhead
  obtain rfl : top = item := Option.some.inj (htop.symm.trans hhead)
  unfold URLFrontier.dequeue
  rw [hpop]
  cases reserve with
  | true =>
    have hreserved := h.without rfl hmem hperm hheap hwaiting (update n.activeHosts top.entry.host true)
      fun host' hne => update_of_ne hne ..
    have hfrontier : f.without rest top.entry.host now (update n.activeHosts top.entry.host true) =
        { f with
          backQueues := update f.backQueues top.entry.host rest
          size := f.size - 1
          hostLastAccess := update f.hostLastAccess top.entry.host (some now)
          activeHosts := update f.activeHosts top.entry.host true } := by
      rw [h.active]
      rfl
    rw [hfrontier] at hreserved
    refine { hreserved with ready := fun host' _ hactive' hwaiting' head' hhead' => ?_ }
    refine hreserved.ready host' (fun heq => ?_) hactive' hwaiting' head' hhead'
    obtain rfl : host' = top.entry.host := Option.some.inj heq
    have : update f.activeHosts top.entry.host true top.entry.host = false := hactive'
    rw [update_self] at this
    cases this
  | false =>
    have hfree := h.without rfl hmem hperm hheap hwaiting n.activeHosts fun _ _ => rfl
    have hfrontier : f.without rest top.entry.host now n.activeHosts =
        { f with
          backQueues := update f.backQueues top.entry.host rest
          size := f.size - 1
          hostLastAccess := update f.hostLastAccess top.entry.host (some now) } := by
      rw [← h.active]
      rfl
    rw [hfrontier] at hfree
    exact hfree.schedule

theorem Matches.get_empty (h : Matches perHostDelay now none f n) (hlater : ∀ wakeup ∈ f.delayed, now < wakeup.due)
    (hnil : f.frontQueue = []) (reserve : Bool) : n.get perHostDelay reserve now = (none, n) := by
  have hscan : n.scan perHostDelay now = none := by
    refine scan_eq_none.mpr fun item hmem heligible => ?_
    obtain ⟨head, hpublished, -⟩ := h.published hlater hmem heligible
    exact absurd (hnil ▸ hpublished) not_mem_nil
  rw [Scheduler.get, hscan]

/-- When no wake-up is due the second loop takes what the scan finds. -/
theorem Matches.take (reserve : Bool) (fuel : ℕ) (hfuel : f.frontQueue.length ≤ fuel)
    (h : Matches perHostDelay now none f n) (hlater : ∀ wakeup ∈ f.delayed, now < wakeup.due) :
    (f.take perHostDelay reserve now fuel).1 = (n.get perHostDelay reserve now).1 ∧
      Matches perHostDelay now none (f.take perHostDelay reserve now fuel).2 (n.get perHostDelay reserve now).2 := by
  induction fuel generalizing f with
  | zero =>
    rw [h.get_empty hlater (length_eq_zero_iff.mp (Nat.le_zero.mp hfuel))]
    exact ⟨rfl, h⟩
  | succ fuel ih =>
    unfold URLFrontier.take
    rcases heappop_cases h.frontHeap with ⟨hnil, hpop⟩ | ⟨item, frontQueue, hpop, hheap, hperm, hleast, -⟩
    · rw [hpop, h.get_empty hlater hnil]
      exact ⟨rfl, h⟩
    · rw [hpop]
      dsimp only
      have hlength : frontQueue.length ≤ fuel := by
        have := hperm.length_eq
        rw [length_cons] at this
        omega
      have hitem : item ∈ f.frontQueue := hperm.mem_iff.mpr mem_cons_self
      split
      · -- a stale head: it is not the head of a free host
        rename_i hstale
        have hrest : Matches perHostDelay now none { f with frontQueue := frontQueue } n := by
          refine { h with
            frontHeap := hheap
            front := fun other hother => h.front other (hperm.mem_iff.mpr (mem_cons_of_mem _ hother))
            ready := fun host hskip hactive hwaiting head hhead => ?_ }
          obtain ⟨hpublished, heligible⟩ := h.ready host hskip hactive hwaiting head hhead
          refine ⟨(mem_cons.mp (hperm.mem_iff.mp hpublished)).resolve_left fun heq => ?_, heligible⟩
          subst heq
          have hhost : head.entry.host = host :=
            (Scheduler.mem_queue.mp ((h.queue host).mem_iff.mp (mem_of_head? hhead))).2
          have hhead' : (f.backQueues host).head? = some head := hhead
          have hactive' : f.activeHosts host = false := hactive
          have hwaiting' : f.waiting host = none := hwaiting
          rw [hhost, hhead', hactive', hwaiting'] at hstale
          simp at hstale
        exact ih hlength hrest hlater
      · rename_i hvalid
        push Not at hvalid
        obtain ⟨⟨hcounter, hactive⟩, hwaiting⟩ := hvalid
        have hactive' : f.activeHosts item.entry.host = false := by simpa using hactive
        have hwaiting' : f.waiting item.entry.host = none := by simpa using hwaiting
        obtain ⟨head, hhead, hsame⟩ := Option.map_eq_some_iff.mp hcounter
        have hqueued := Scheduler.mem_queue.mp ((h.queue _).mem_iff.mp (mem_of_head? hhead))
        obtain rfl : head = item := (h.front item hitem).2 head hqueued.1 hsame
        obtain ⟨-, heligible⟩ := h.ready _ (fun hcontra => by cases hcontra) hactive' hwaiting' head hhead
        have hscan : n.scan perHostDelay now = some head := by
          refine scan_eq_some.mpr ⟨⟨hqueued.1, heligible⟩, fun other hother hallowed => ?_⟩
          obtain ⟨first, hpublished, -, hle⟩ := h.published hlater hother hallowed
          exact (hleast first hpublished).trans hle
        have hrest : Matches perHostDelay now (some head.entry.host) { f with frontQueue := frontQueue } n := by
          refine { h with
            frontHeap := hheap
            front := fun other hother => h.front other (hperm.mem_iff.mpr (mem_cons_of_mem _ hother))
            ready := fun host hskip hactive hwaiting first hfirst => ?_ }
          obtain ⟨hpublished, hallowed⟩ := h.ready host (fun hcontra => by cases hcontra) hactive hwaiting first hfirst
          refine ⟨(mem_cons.mp (hperm.mem_iff.mp hpublished)).resolve_left fun heq => hskip ?_, hallowed⟩
          have hhost := (Scheduler.mem_queue.mp ((h.queue host).mem_iff.mp (mem_of_head? hfirst))).2
          rw [← heq, hhost]
        have hget : n.get perHostDelay reserve now = (some head.entry, n.without head head.entry.host now
            (if reserve then update n.activeHosts head.entry.host true else n.activeHosts)) := by
          rw [Scheduler.get, hscan]
          rfl
        rw [hget]
        exact ⟨rfl, hrest.dequeue reserve hhead hqueued.1 hwaiting'⟩

theorem Matches.get (reserve : Bool) (h : Matches perHostDelay now none f n) :
    (f.get perHostDelay reserve now).1 = (n.get perHostDelay reserve now).1 ∧
      Matches perHostDelay now none (f.get perHostDelay reserve now).2 (n.get perHostDelay reserve now).2 := by
  obtain ⟨hwake, hlater⟩ := h.wake f.delayed.length le_rfl
  exact hwake.take reserve _ le_rfl hlater

/-! ### The other calls -/

theorem Matches.complete (entry : FrontierEntry) (h : Matches perHostDelay now none f n) :
    Matches perHostDelay now none (f.complete perHostDelay entry now) (n.complete entry now) := by
  refine Matches.schedule ?_
  exact {
    counter := h.counter
    active := by
      show update f.activeHosts entry.host false = update n.activeHosts entry.host false
      rw [h.active]
    access := by
      show update f.hostLastAccess entry.host (some now) = update n.hostLastAccess entry.host (some now)
      rw [h.access]
    size := h.size
    fresh := h.fresh
    distinct := h.distinct
    heap := h.heap
    queue := h.queue
    frontHeap := h.frontHeap
    front := h.front
    delayedHeap := h.delayedHeap
    waiting := fun host due hdue => by
      have hdue' : update f.waiting entry.host none host = some due := hdue
      by_cases heq : host = entry.host
      · subst heq
        rw [update_self] at hdue'
        cases hdue'
      · rw [update_of_ne heq] at hdue'
        obtain ⟨hfree, ⟨lastAccess, haccess, hsum⟩, hwakeup⟩ := h.waiting host due hdue'
        refine ⟨?_, ⟨lastAccess, ?_, hsum⟩, hwakeup⟩
        · show update f.activeHosts entry.host false host = false
          rw [update_of_ne heq, hfree]
        · show update f.hostLastAccess entry.host (some now) host = some lastAccess
          rw [update_of_ne heq, haccess]
    ready := fun host hskip hactive hwaiting head hhead => by
      have heq : host ≠ entry.host := fun heq => hskip (congrArg some heq)
      have hactive' : update f.activeHosts entry.host false host = false := hactive
      have hwaiting' : update f.waiting entry.host none host = none := hwaiting
      rw [update_of_ne heq] at hactive' hwaiting'
      obtain ⟨hpublished, hfree, hdelay⟩ := h.ready host (fun hcontra => by cases hcontra) hactive' hwaiting' head hhead
      refine ⟨hpublished, ?_, fun lastAccess hlast => hdelay lastAccess ?_⟩
      · show update n.activeHosts entry.host false host = false
        rw [update_of_ne heq, hfree]
      · have hlast' : update n.hostLastAccess entry.host (some now) host = some lastAccess := hlast
        rwa [update_of_ne heq] at hlast'
    clock := fun host lastAccess hlast => by
      have hlast' : update n.hostLastAccess entry.host (some now) host = some lastAccess := hlast
      by_cases heq : host = entry.host
      · subst heq
        rw [update_self] at hlast'
        exact (Option.some.inj hlast').ge
      · rw [update_of_ne heq] at hlast'
        exact h.clock host lastAccess hlast' }

theorem queue_put (n : Scheduler) (entry : FrontierEntry) (host : String) : (n.put entry).queue host =
    if entry.host = host then n.queue host ++ [⟨entry.priority, n.counter, entry⟩] else n.queue host := by
  unfold Scheduler.queue Scheduler.put
  rw [filter_append, filter_singleton]
  split <;> simp_all

theorem Matches.put (entry : FrontierEntry) (h : Matches perHostDelay now none f n) :
    Matches perHostDelay now none (f.put perHostDelay entry now) (n.put entry) := by
  have hcounter := h.counter
  obtain ⟨hheap, hperm⟩ := heappush_spec (h.heap entry.host) ⟨entry.priority, f.counter, entry⟩
  have hbase : Matches perHostDelay now (some entry.host)
      { f with
        backQueues := update f.backQueues entry.host
          (heappush (f.backQueues entry.host) ⟨entry.priority, f.counter, entry⟩)
        counter := f.counter + 1
        size := f.size + 1 } (n.put entry) := {
    counter := congrArg (· + 1) h.counter
    active := h.active
    access := h.access
    size := by
      show f.size + 1 = (n.pending ++ [_]).length
      rw [length_append, h.size]
      rfl
    fresh := fun item hitem => by
      rcases mem_append.mp hitem with hitem | hitem
      · exact (h.fresh item hitem).trans (Nat.lt_succ_self _)
      · rw [mem_singleton.mp hitem]
        exact Nat.lt_succ_self _
    distinct := by
      show ((n.pending ++ [_]).map Item.counter).Nodup
      rw [map_append, nodup_append]
      refine ⟨h.distinct, nodup_singleton _, fun c hc c' hc' heq => ?_⟩
      obtain ⟨item, hitem, rfl⟩ := mem_map.mp hc
      have := h.fresh item hitem
      rw [heq, mem_singleton.mp hc'] at this
      exact lt_irrefl _ this
    heap := fun host => by
      dsimp only
      by_cases heq : host = entry.host
      · subst heq
        rwa [update_self]
      · rw [update_of_ne heq]
        exact h.heap host
    queue := fun host => by
      rw [queue_put]
      dsimp only
      by_cases heq : host = entry.host
      · subst heq
        rw [update_self, if_pos rfl, ← hcounter]
        exact hperm.trans (((h.queue _).cons _).trans (perm_append_singleton _ _).symm)
      · rw [update_of_ne heq, if_neg (Ne.symm heq)]
        exact h.queue host
    frontHeap := h.frontHeap
    front := fun item hitem => by
      obtain ⟨hlt, honly⟩ := h.front item hitem
      refine ⟨hlt.trans (Nat.lt_succ_self _), fun other hother hsame => ?_⟩
      rcases mem_append.mp hother with hother | hother
      · exact honly other hother hsame
      · rw [mem_singleton.mp hother] at hsame
        exact absurd hsame hlt.ne'
    delayedHeap := h.delayedHeap
    waiting := h.waiting
    ready := fun host hskip hactive hwaiting head hhead => by
      have heq : host ≠ entry.host := fun heq => hskip (congrArg some heq)
      dsimp only at hhead
      rw [update_of_ne heq] at hhead
      exact h.ready host (fun hcontra => by cases hcontra) hactive hwaiting head hhead
    clock := h.clock }
  unfold URLFrontier.put
  dsimp only
  split
  · exact hbase.schedule
  · -- the head is still the one before
    rename_i hnot
    refine { hbase with ready := fun host _ hactive hwaiting head hhead => ?_ }
    by_cases heq : host = entry.host
    · subst heq
      dsimp only at hhead
      rw [update_self] at hhead
      have hold : head ∈ f.backQueues entry.host :=
        (mem_cons.mp (hperm.mem_iff.mp (mem_of_head? hhead))).resolve_left fun heq => hnot (heq ▸ hhead)
      cases hqueue : f.backQueues entry.host with
      | nil => exact absurd (hqueue ▸ hold) not_mem_nil
      | cons first rest =>
        have hle : head ≤ first := by
          obtain ⟨tail, htail⟩ : ∃ tail, heappush (f.backQueues entry.host) ⟨entry.priority, f.counter, entry⟩ =
              head :: tail := by
            cases hpush : heappush (f.backQueues entry.host) ⟨entry.priority, f.counter, entry⟩ with
            | nil =>
              rw [hpush] at hhead
              cases hhead
            | cons other tail =>
              rw [hpush] at hhead
              exact ⟨tail, congrArg (· :: tail) (Option.some.inj hhead)⟩
          refine hheap.head_le htail first (hperm.mem_iff.mpr (mem_cons_of_mem _ ?_))
          rw [hqueue]
          exact mem_cons_self
        obtain rfl : head = first := le_antisymm hle ((h.heap _).head_le hqueue head hold)
        exact h.ready _ (fun hcontra => by cases hcontra) hactive hwaiting head (by rw [hqueue]; rfl)
    · exact hbase.ready host (fun hcontra => heq (Option.some.inj hcontra)) hactive hwaiting head hhead

/-- Every call returns what the scheduler returns. -/
theorem Matches.step (call : Call) (h : Matches perHostDelay now none f n) :
    (f.step perHostDelay now call).1 = (n.step perHostDelay now call).1 ∧
      Matches perHostDelay now none (f.step perHostDelay now call).2 (n.step perHostDelay now call).2 := by
  cases call with
  | put entry => exact ⟨rfl, h.put entry⟩
  | get reserve => exact h.get reserve
  | complete entry => exact ⟨rfl, h.complete entry⟩

/-! ### Runs -/

theorem run_cons {σ : Type} (step : σ → ℚ → Call → Option FrontierEntry × σ) (s : σ) (now : ℚ) (call : Call)
    (calls : List (ℚ × Call)) : run step s ((now, call) :: calls) =
      ((step s now call).1 :: (run step (step s now call).2 calls).1, (run step (step s now call).2 calls).2) := rfl

theorem step_get_none (hscan : n.scan perHostDelay now = none) (reserve : Bool) :
    n.step perHostDelay now (.get reserve) = (none, n) := by
  rw [Scheduler.step, Scheduler.get, hscan]

theorem step_get_some (hscan : n.scan perHostDelay now = some item) (reserve : Bool) :
    n.step perHostDelay now (.get reserve) = (some item.entry, n.without item item.entry.host now
      (if reserve then update n.activeHosts item.entry.host true else n.activeHosts)) := by
  rw [Scheduler.step, Scheduler.get, hscan]
  rfl

theorem Matches.run (calls : List (ℚ × Call)) (hclock : (calls.map Prod.fst).Pairwise (· ≤ ·))
    (hnow : ∀ call ∈ calls, now ≤ call.1) (h : Matches perHostDelay now none f n) :
    (run (URLFrontier.step perHostDelay) f calls).1 = (run (Scheduler.step perHostDelay) n calls).1 ∧
      ∃ later, Matches perHostDelay later none (run (URLFrontier.step perHostDelay) f calls).2
        (run (Scheduler.step perHostDelay) n calls).2 := by
  induction calls generalizing f n now with
  | nil => exact ⟨rfl, now, h⟩
  | cons timed calls ih =>
    obtain ⟨time, call⟩ := timed
    rw [map_cons, pairwise_cons] at hclock
    obtain ⟨hresult, hstep⟩ := (h.later (hnow _ mem_cons_self)).step call
    obtain ⟨hresults, hrun⟩ := ih hclock.2 (fun other hother => hclock.1 _ (mem_map_of_mem hother)) hstep
    exact ⟨congrArg₂ List.cons hresult hresults, hrun⟩

theorem run_perm (perHostDelay : ℚ) (calls : List (ℚ × Call)) (n : Scheduler) :
    ((run (Scheduler.step perHostDelay) n calls).1.filterMap id ++
        (run (Scheduler.step perHostDelay) n calls).2.pending.map Item.entry).Perm
      (n.pending.map Item.entry ++ puts calls) := by
  induction calls generalizing n with
  | nil => exact (append_nil _).symm ▸ Perm.refl _
  | cons timed calls ih =>
    obtain ⟨now, call⟩ := timed
    cases call with
    | put entry =>
      refine (ih (n.put entry)).trans (Perm.of_eq ?_)
      show (n.pending ++ [_]).map Item.entry ++ puts calls = n.pending.map Item.entry ++ entry :: puts calls
      rw [map_append, append_assoc]
      rfl
    | complete entry => exact ih (n.complete entry now)
    | get reserve =>
      rw [run_cons]
      cases hscan : n.scan perHostDelay now with
      | none =>
        rw [step_get_none hscan]
        exact ih n
      | some item =>
        have hmem := (scan_eq_some.mp hscan).1.1
        rw [step_get_some hscan]
        refine ((ih _).cons item.entry).trans ?_
        exact ((perm_cons_erase hmem).symm.map Item.entry).append_right (puts calls)

/-- A returned entry's host was last accessed long enough before. -/
theorem run_spaced (perHostDelay : ℚ) (calls : List (ℚ × Call)) (hclock : (calls.map Prod.fst).Pairwise (· ≤ ·))
    (n : Scheduler) (hpast : ∀ host, ∀ lastAccess ∈ n.hostLastAccess host, ∀ call ∈ calls, lastAccess ≤ call.1) :
    (∀ access ∈ accesses calls (run (Scheduler.step perHostDelay) n calls).1, access.2.2 = true →
      ∀ lastAccess ∈ n.hostLastAccess access.1, lastAccess + perHostDelay ≤ access.2.1) ∧
    (accesses calls (run (Scheduler.step perHostDelay) n calls).1).Pairwise fun before access =>
      before.1 = access.1 → access.2.2 = true → before.2.1 + perHostDelay ≤ access.2.1 := by
  induction calls generalizing n with
  | nil => exact ⟨fun _ h => absurd h not_mem_nil, List.Pairwise.nil⟩
  | cons timed calls ih =>
    obtain ⟨now, call⟩ := timed
    rw [map_cons, pairwise_cons] at hclock
    have hlater (other : ℚ × Call) (hother : other ∈ calls) : now ≤ other.1 := hclock.1 _ (mem_map_of_mem hother)
    -- after an access of a host
    have haccess (host : String) (n' : Scheduler) (hn' : n'.hostLastAccess = update n.hostLastAccess host (some now)) :
        (∀ access ∈ accesses calls (run (Scheduler.step perHostDelay) n' calls).1, access.2.2 = true →
          (∀ lastAccess ∈ n.hostLastAccess access.1, lastAccess + perHostDelay ≤ access.2.1) ∧
          (host = access.1 → now + perHostDelay ≤ access.2.1)) ∧
        (accesses calls (run (Scheduler.step perHostDelay) n' calls).1).Pairwise fun before access =>
          before.1 = access.1 → access.2.2 = true → before.2.1 + perHostDelay ≤ access.2.1 := by
      obtain ⟨hspaced, hpairs⟩ := ih hclock.2 n' fun host' lastAccess hlast other hother => by
        rw [hn'] at hlast
        by_cases heq : host' = host
        · subst heq
          rw [update_self] at hlast
          rw [← Option.some.inj hlast]
          exact hlater other hother
        · rw [update_of_ne heq] at hlast
          exact hpast host' lastAccess hlast other (mem_cons_of_mem _ hother)
      refine ⟨fun access hmem hreturned => ?_, hpairs⟩
      have hspace := hspaced access hmem hreturned
      rw [hn'] at hspace
      by_cases heq : access.1 = host
      · rw [heq, update_self] at hspace
        have hdelay := hspace now rfl
        refine ⟨fun lastAccess hlast => ?_, fun _ => hdelay⟩
        have := hpast _ lastAccess hlast _ mem_cons_self
        dsimp only at this
        linarith
      · rw [update_of_ne heq] at hspace
        exact ⟨hspace, fun hsame => absurd hsame.symm heq⟩
    have hpast' : ∀ host, ∀ lastAccess ∈ n.hostLastAccess host, ∀ call ∈ calls, lastAccess ≤ call.1 :=
      fun host lastAccess hlast other hother => hpast host lastAccess hlast other (mem_cons_of_mem _ hother)
    cases call with
    | put entry => exact ih hclock.2 (n.put entry) hpast'
    | complete entry =>
      obtain ⟨hspaced, hpairs⟩ := haccess entry.host (n.complete entry now) rfl
      refine ⟨fun access hmem hreturned => ?_, pairwise_cons.mpr ⟨fun access hmem heq hreturned =>
        (hspaced access hmem hreturned).2 heq, hpairs⟩⟩
      rcases mem_cons.mp hmem with rfl | hmem
      · cases hreturned
      · exact (hspaced access hmem hreturned).1
    | get reserve =>
      rw [run_cons]
      cases hscan : n.scan perHostDelay now with
      | none =>
        rw [step_get_none hscan]
        exact ih hclock.2 n hpast'
      | some item =>
        obtain ⟨⟨-, heligible⟩, -⟩ := scan_eq_some.mp hscan
        obtain ⟨hspaced, hpairs⟩ := haccess item.entry.host (n.without item item.entry.host now
          (if reserve then update n.activeHosts item.entry.host true else n.activeHosts)) rfl
        rw [step_get_some hscan]
        refine ⟨fun access hmem hreturned => ?_, pairwise_cons.mpr ⟨fun access hmem heq hreturned =>
          (hspaced access hmem hreturned).2 heq, hpairs⟩⟩
        rcases mem_cons.mp hmem with rfl | hmem
        · exact heligible.2
        · exact (hspaced access hmem hreturned).1

/-- The best pending item of a host. -/
def Scheduler.Best (n : Scheduler) (host : String) (item : Item) : Prop :=
  (item ∈ n.pending ∧ item.entry.host = host) ∧ ∀ other ∈ n.pending, other.entry.host = host → item.rank ≤ other.rank

/-- What a full scan picks: the least of the best items of the eligible hosts, and nothing when no host is eligible. -/
def Scheduler.Picks (perHostDelay now : ℚ) (n : Scheduler) : Option Item → Prop
  | some item => n.Best item.entry.host item ∧ n.Eligible perHostDelay now item.entry.host ∧
      ∀ host other, n.Best host other → n.Eligible perHostDelay now host → item.rank ≤ other.rank
  | none => ∀ host item, n.Best host item → ¬ n.Eligible perHostDelay now host

theorem scan_picks (perHostDelay now : ℚ) (n : Scheduler) : n.Picks perHostDelay now (n.scan perHostDelay now) := by
  cases hscan : n.scan perHostDelay now with
  | none =>
    rintro host item ⟨⟨hmem, rfl⟩, -⟩
    exact scan_eq_none.mp hscan item hmem
  | some item =>
    obtain ⟨⟨hmem, heligible⟩, hleast⟩ := scan_eq_some.mp hscan
    refine ⟨⟨⟨hmem, rfl⟩, fun other hother hhost => ?_⟩, heligible, ?_⟩
    · exact Item.rank_le (hleast other hother (hhost ▸ heligible))
    · rintro host other ⟨⟨hother, rfl⟩, -⟩ hallowed
      exact Item.rank_le (hleast other hother hallowed)

/-- With a clock that never runs back every call returns what the full scan picks; what was put is returned once or pending,
and a host is not returned before its delay is over. -/
theorem frontier_schedules (perHostDelay : ℚ) (calls : List (ℚ × Call)) (hclock : (calls.map Prod.fst).Pairwise (· ≤ ·)) :
    (run (URLFrontier.step perHostDelay) URLFrontier.new calls).1 =
        (run (Scheduler.step perHostDelay) Scheduler.new calls).1 ∧
      (∀ (n : Scheduler) now, n.Picks perHostDelay now (Scheduler.scan perHostDelay n now)) ∧
      ((run (URLFrontier.step perHostDelay) URLFrontier.new calls).1.filterMap id ++
        (run (Scheduler.step perHostDelay) Scheduler.new calls).2.pending.map Item.entry).Perm (puts calls) ∧
      (run (URLFrontier.step perHostDelay) URLFrontier.new calls).2.size =
        (run (Scheduler.step perHostDelay) Scheduler.new calls).2.pending.length ∧
      (accesses calls (run (URLFrontier.step perHostDelay) URLFrontier.new calls).1).Pairwise fun before access =>
        before.1 = access.1 → access.2.2 = true → before.2.1 + perHostDelay ≤ access.2.1 := by
  have hfirst : ∀ call ∈ calls, (calls.head?.elim 0 Prod.fst) ≤ call.1 := by
    cases calls with
    | nil => exact fun _ h => absurd h not_mem_nil
    | cons first calls =>
      intro call hcall
      rw [map_cons, pairwise_cons] at hclock
      rcases mem_cons.mp hcall with rfl | hcall
      · exact le_rfl
      · exact hclock.1 _ (mem_map_of_mem hcall)
  obtain ⟨hresults, later, hmatches⟩ := (matches_new perHostDelay _).run calls hclock hfirst
  rw [hresults]
  refine ⟨rfl, fun n now => scan_picks perHostDelay now n, run_perm perHostDelay calls Scheduler.new, hmatches.size, ?_⟩
  exact (run_spaced perHostDelay calls hclock Scheduler.new fun _ _ h => by cases h).2

/-- Two entries of one host, the second of the higher priority. -/
def twoCalls : List (ℚ × Call) :=
  [(0, .put ⟨"http://a/1", 1, 0, "a"⟩), (0, .put ⟨"http://a/2", 0, 0, "a"⟩), (1, .get false), (1, .get false), (2, .get false)]

theorem frontier_schedules_two :
    (run (URLFrontier.step 1) URLFrontier.new twoCalls).1 = (run (Scheduler.step 1) Scheduler.new twoCalls).1 ∧
      (∀ (n : Scheduler) now, n.Picks 1 now (Scheduler.scan 1 n now)) ∧
      ((run (URLFrontier.step 1) URLFrontier.new twoCalls).1.filterMap id ++
        (run (Scheduler.step 1) Scheduler.new twoCalls).2.pending.map Item.entry).Perm (puts twoCalls) ∧
      (run (URLFrontier.step 1) URLFrontier.new twoCalls).2.size =
        (run (Scheduler.step 1) Scheduler.new twoCalls).2.pending.length ∧
      (accesses twoCalls (run (URLFrontier.step 1) URLFrontier.new twoCalls).1).Pairwise fun before access =>
        before.1 = access.1 → access.2.2 = true → before.2.1 + 1 ≤ access.2.1 :=
  frontier_schedules 1 twoCalls (by decide +kernel)

example : (run (URLFrontier.step 1) URLFrontier.new twoCalls).1 =
    [none, none, some ⟨"http://a/2", 0, 0, "a"⟩, none, some ⟨"http://a/1", 1, 0, "a"⟩] := by decide +kernel

end SystemDesign.WebCrawler
