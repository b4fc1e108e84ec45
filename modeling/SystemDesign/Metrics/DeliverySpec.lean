import SystemDesign.Metrics.AlertsSpec

/-!
Every event is delivered at most once and every group in order.

An event that is announced by a delivery points to it from then on, and shares its fate; a
delivery is worked on by the holder of its lease only.
-/

namespace SystemDesign.Metrics

open List hiding le_refl
open Dict

section

variable {τ V : Type} [LinearOrder τ] [Sub τ] [Add τ] [NatCast τ] [LinearOrder V]

/-! ### What stays -/

/-- No event is lost; one that ended stays as it ended, one in a delivery stays in it. -/
def Settles (d d' : AlertTables τ V) : Prop :=
  ∀ e ∈ d.events, ∃ e' ∈ d'.events, e'.id = e.id ∧
    (e.status ≠ .pending → e'.status = e.status) ∧ ∀ b, e.batch = some b → e'.batch = some b

variable {d d' : AlertTables τ V}

section
omit [LinearOrder τ] [Sub τ] [Add τ] [NatCast τ] [LinearOrder V]

theorem Settles.of_subset (h : d.events ⊆ d'.events) : Settles d d' :=
  fun e he => ⟨e, h he, rfl, fun _ => rfl, fun _ hb => hb⟩

theorem Settles.trans {d d' d'' : AlertTables τ V} (h : Settles d d') (h' : Settles d' d'') : Settles d d'' := by
  intro e he
  obtain ⟨e', he', hid, hstatus, hbatch⟩ := h e he
  obtain ⟨e'', he'', hid', hstatus', hbatch'⟩ := h' e' he'
  refine ⟨e'', he'', hid'.trans hid, fun hne => ?_, fun b hb => hbatch' b (hbatch b hb)⟩
  have heq := hstatus hne
  rw [← heq]
  apply hstatus'
  rw [heq]
  exact hne

end

/-- Tables after some work: alerts as they were, events where they were or further. -/
structure Further (d d' : AlertTables τ V) : Prop extends SameAlerts d d' where
  settled : Settles d d'

section
omit [LinearOrder τ] [Sub τ] [Add τ] [NatCast τ] [LinearOrder V]

theorem Further.refl (d : AlertTables τ V) : Further d d := ⟨⟨rfl, rfl, fun _ => rfl⟩, .of_subset (Subset.refl _)⟩

theorem Further.trans {d d' d'' : AlertTables τ V} (h : Further d d') (h' : Further d' d'') : Further d d'' :=
  ⟨h.toSameAlerts.trans h'.toSameAlerts, h.settled.trans h'.settled⟩

theorem eventsOf_map {f : Event τ V → Event τ V} (hid : ∀ e, (f e).id = e.id)
    (hann : ∀ e, (f e).announced = e.announced) (a : AlertId) :
    eventsOf { d with events := d.events.map f } a = eventsOf d a := by
  unfold eventsOf
  rw [filter_map, map_map]
  have hfilter : ((fun e : Event τ V => decide (e.id.alert = a)) ∘ f) = fun e => decide (e.id.alert = a) := by
    funext e
    simp [hid]
  have hmap : Event.announced ∘ f = (Event.announced : Event τ V → Announced τ) := by
    funext e
    exact hann e
  rw [hfilter, hmap]

theorem further_mapEvents (d d' : AlertTables τ V) (f : Event τ V → Event τ V) (halerts : d'.alerts = d.alerts)
    (hevaluations : d'.evaluations = d.evaluations) (hevents : d'.events = d.events.map f)
    (hid : ∀ e, (f e).id = e.id) (hann : ∀ e, (f e).announced = e.announced)
    (hstatus : ∀ e ∈ d.events, e.status ≠ .pending → (f e).status = e.status)
    (hbatch : ∀ e ∈ d.events, ∀ b, e.batch = some b → (f e).batch = some b) : Further d d' := by
  refine ⟨⟨halerts, hevaluations, fun a => ?_⟩, fun e he => ?_⟩
  · have := eventsOf_map (d := d) hid hann a
    rw [eventsOf] at this ⊢
    rw [hevents]
    exact this
  · refine ⟨f e, ?_, hid e, hstatus e he, hbatch e he⟩
    rw [hevents]
    exact mem_map_of_mem he

end

/-! ### The invariant -/

def statusOf : DeliveryStatus → EventStatus
  | .pending => .pending
  | .sent => .sent
  | .dead => .dead

/-- How many notifiers ever claimed a delivery. -/
def claimsOf (w : Dict String Notifier) (id : DeliveryId) : ℕ := (w.entries.map fun e => e.2.id).count id

/-- A lease is held by the notifier that claimed last. -/
structure DeliveryOk (w : Dict String Notifier) (n : Delivery τ) : Prop where
  attempts : n.attempts ≤ 5
  claims : claimsOf w n.id = n.attempts
  lease : ∀ l, n.lease = some l → n.status = .pending ∧ ∃ x, w.get? l = some x ∧ x.id = n.id ∧ x.attempts = n.attempts

structure Delivering (d : AlertTables τ V) (w : Dict String Notifier) : Prop where
  eventIds : (d.events.map Event.id).Nodup
  seqs : d.deliveries.map Delivery.seq = List.range' 1 d.deliveries.length
  ids : (d.deliveries.map Delivery.id).Nodup
  members : ∀ n ∈ d.deliveries, n.id ≠ [] ∧ ∀ i ∈ n.id, ∃ e ∈ d.events, e.id = i ∧ e.batch = some n.id
  batches : ∀ e ∈ d.events, ∀ b, e.batch = some b →
    ∃ n ∈ d.deliveries, n.id = b ∧ e.id ∈ b ∧ e.status = statusOf n.status
  free : ∀ e ∈ d.events, e.batch = none → e.status = .pending ∨ e.status = .superseded
  claimed : ∀ id, 0 < claimsOf w id → id ∈ d.deliveries.map Delivery.id
  each : ∀ n ∈ d.deliveries, DeliveryOk w n
  order : ∀ n ∈ d.deliveries, 0 < n.attempts → ∀ o ∈ d.deliveries, o.group = n.group →
    o.seq < n.seq → o.status ≠ .pending

variable {w : Dict String Notifier}

variable {id : DeliveryId}

section
omit [LinearOrder τ] [Sub τ] [Add τ] [NatCast τ] [LinearOrder V]

theorem Delivering.notifiers {w' : Dict String Notifier} (h : Delivering d w)
    (hw : ∀ l x, w.get? l = some x → ∃ x', w'.get? l = some x' ∧ x'.id = x.id ∧
      x'.attempts = x.attempts) (hclaims : ∀ id, claimsOf w' id = claimsOf w id) : Delivering d w' := by
  refine ⟨h.eventIds, h.seqs, h.ids, h.members, h.batches, h.free, fun id hid => ?_, fun n hn => ?_, h.order⟩
  · rw [hclaims] at hid
    exact h.claimed id hid
  · refine ⟨(h.each n hn).attempts, (hclaims _).trans (h.each n hn).claims, fun l hl => ?_⟩
    obtain ⟨hpending, x, hx, hid, hattempts⟩ := (h.each n hn).lease l hl
    obtain ⟨x', hx', hid', hattempts'⟩ := hw l x hx
    exact ⟨hpending, x', hx', hid'.trans hid, hattempts'.trans hattempts⟩

/-- Events replaced without touching what a delivery announces. -/
theorem Delivering.mapEvents {d : AlertTables τ V} {w : Dict String Notifier} (h : Delivering d w)
    {f : Event τ V → Event τ V} (hid : ∀ e, (f e).id = e.id) (hbatch : ∀ e, (f e).batch = e.batch)
    (hstatus : ∀ e ∈ d.events, ∀ b, e.batch = some b → (f e).status = e.status)
    (hfree : ∀ e ∈ d.events, e.batch = none → (f e).status = .pending ∨ (f e).status = .superseded) :
    Delivering { d with events := d.events.map f } w := by
  constructor
  · have hmap : (d.events.map f).map Event.id = d.events.map Event.id := by
      rw [map_map]
      exact map_congr_left fun e _ => hid e
    rw [hmap]
    exact h.eventIds
  · exact h.seqs
  · exact h.ids
  · intro n hn
    refine ⟨(h.members n hn).1, fun i hi => ?_⟩
    obtain ⟨e, he, hei, heb⟩ := (h.members n hn).2 i hi
    exact ⟨f e, mem_map_of_mem he, (hid e).trans hei, (hbatch e).trans heb⟩
  · intro e' he' b hb
    obtain ⟨e, he, rfl⟩ := mem_map.mp he'
    rw [hbatch] at hb
    obtain ⟨n, hn, hnb, hmem, hst⟩ := h.batches e he b hb
    exact ⟨n, hn, hnb, by rw [hid]; exact hmem, (hstatus e he b hb).trans hst⟩
  · intro e' he' hb
    obtain ⟨e, he, rfl⟩ := mem_map.mp he'
    rw [hbatch] at hb
    exact hfree e he hb
  · exact h.claimed
  · exact h.each
  · exact h.order

/-- A map of the deliveries that keeps what names and orders them. -/
structure SameNames (g : Delivery τ → Delivery τ) : Prop where
  id : ∀ n, (g n).id = n.id
  seq : ∀ n, (g n).seq = n.seq
  group : ∀ n, (g n).group = n.group

theorem SameNames.map_id {g : Delivery τ → Delivery τ} (hg : SameNames g) (l : List (Delivery τ)) :
    (l.map g).map Delivery.id = l.map Delivery.id := by
  rw [map_map]
  exact map_congr_left fun n _ => hg.id n

theorem Delivering.mapDeliveries {w' : Dict String Notifier} (h : Delivering d w) {g : Delivery τ → Delivery τ}
    (hg : SameNames g) (hstatus : ∀ n ∈ d.deliveries, (g n).status = n.status)
    (hclaimed : ∀ id, 0 < claimsOf w' id → id ∈ d.deliveries.map Delivery.id)
    (heach : ∀ n ∈ d.deliveries, DeliveryOk w' (g n))
    (horder : ∀ n ∈ d.deliveries, 0 < (g n).attempts → ∀ o ∈ d.deliveries, o.group = n.group →
      o.seq < n.seq → o.status ≠ .pending) : Delivering { d with deliveries := d.deliveries.map g } w' := by
  constructor
  · exact h.eventIds
  · rw [map_map, length_map, ← h.seqs]
    exact map_congr_left fun n _ => hg.seq n
  · rw [hg.map_id]
    exact h.ids
  · intro n' hn'
    obtain ⟨n, hn, rfl⟩ := mem_map.mp hn'
    rw [hg.id]
    exact h.members n hn
  · intro e he b hb
    obtain ⟨n, hn, hnb, hmem, hst⟩ := h.batches e he b hb
    exact ⟨g n, mem_map_of_mem hn, (hg.id n).trans hnb, hmem, by rw [hstatus n hn]; exact hst⟩
  · exact h.free
  · intro id hid
    rw [hg.map_id]
    exact hclaimed id hid
  · intro n' hn'
    obtain ⟨n, hn, rfl⟩ := mem_map.mp hn'
    exact heach n hn
  · intro n' hn' hattempts o' ho' hgroup hseq
    obtain ⟨n, hn, rfl⟩ := mem_map.mp hn'
    obtain ⟨o, ho, rfl⟩ := mem_map.mp ho'
    rw [hg.group, hg.group] at hgroup
    rw [hg.seq, hg.seq] at hseq
    rw [hstatus o ho]
    exact horder n hn hattempts o ho hgroup hseq

/-- A pending delivery ends, and its events with it. -/
theorem Delivering.finish {d : AlertTables τ V} {w : Dict String Notifier} (h : Delivering d w)
    (g : Delivery τ → Delivery τ) (hg : SameNames g) (st : DeliveryStatus) (hst : st ≠ .pending)
    (hother : ∀ n ∈ d.deliveries, n.id ≠ id → g n = n)
    (hends : ∀ n ∈ d.deliveries, n.id = id → (g n).status = st ∧ (g n).lease = none ∧ (g n).attempts = n.attempts) :
    Delivering (finishEvents id (statusOf st) { d with deliveries := d.deliveries.map g }) w := by
  have hattempts : ∀ n ∈ d.deliveries, (g n).attempts = n.attempts := by
    intro n hn
    by_cases hn' : n.id = id
    · exact (hends n hn hn').2.2
    · rw [hother n hn hn']
  constructor
  · have hmap : (finishEvents id (statusOf st) { d with deliveries := d.deliveries.map g }).events.map
        Event.id = d.events.map Event.id := by
      rw [finishEvents, map_map]
      apply map_congr_left
      intro e _
      simp only [Function.comp]
      split
      · rfl
      · rfl
    rw [hmap]
    exact h.eventIds
  · change (d.deliveries.map g).map Delivery.seq = List.range' 1 (d.deliveries.map g).length
    rw [map_map, length_map, ← h.seqs]
    exact map_congr_left fun n _ => hg.seq n
  · change ((d.deliveries.map g).map Delivery.id).Nodup
    rw [hg.map_id]
    exact h.ids
  · intro n' hn'
    obtain ⟨n, hn, rfl⟩ := mem_map.mp hn'
    rw [hg.id]
    refine ⟨(h.members n hn).1, fun i hi => ?_⟩
    obtain ⟨e, he, hei, heb⟩ := (h.members n hn).2 i hi
    refine ⟨_, mem_map_of_mem he, ?_, ?_⟩
    · split
      · exact hei
      · exact hei
    · split
      · exact heb
      · exact heb
  · intro e' he' b hb
    obtain ⟨e, he, rfl⟩ := mem_map.mp he'
    by_cases hbid : e.batch = some id
    · rw [if_pos hbid] at hb ⊢
      obtain ⟨n, hn, hnb, hmem, -⟩ := h.batches e he b hb
      have hbeq : b = id := by
        have : some b = some id := hb.symm.trans hbid
        exact Option.some.inj this
      refine ⟨g n, mem_map_of_mem hn, (hg.id n).trans hnb, hmem, ?_⟩
      rw [(hends n hn (hnb.trans hbeq)).1]
    · rw [if_neg hbid] at hb ⊢
      obtain ⟨n, hn, hnb, hmem, hstatus⟩ := h.batches e he b hb
      have hne : n.id ≠ id := by
        rintro rfl
        exact hbid (hnb ▸ hb)
      refine ⟨g n, mem_map_of_mem hn, (hg.id n).trans hnb, hmem, ?_⟩
      rw [hother n hn hne]
      exact hstatus
  · intro e' he' hb
    obtain ⟨e, he, rfl⟩ := mem_map.mp he'
    by_cases hbid : e.batch = some id
    · rw [if_pos hbid] at hb
      exact absurd (hbid.symm.trans hb) (by simp)
    · rw [if_neg hbid] at hb ⊢
      exact h.free e he hb
  · intro i hi
    change i ∈ (d.deliveries.map g).map Delivery.id
    rw [hg.map_id]
    exact h.claimed i hi
  · intro n' hn'
    obtain ⟨n, hn, rfl⟩ := mem_map.mp hn'
    by_cases hid : n.id = id
    · obtain ⟨-, hlease, ha⟩ := hends n hn hid
      refine ⟨by rw [ha]; exact (h.each n hn).attempts,
        by rw [ha, hg.id]; exact (h.each n hn).claims, fun l hl => ?_⟩
      rw [hlease] at hl
      cases hl
    · rw [hother n hn hid]
      exact h.each n hn
  · intro n' hn' hpos o' ho' hgroup hseq
    obtain ⟨n, hn, rfl⟩ := mem_map.mp hn'
    obtain ⟨o, ho, rfl⟩ := mem_map.mp ho'
    rw [hg.group, hg.group] at hgroup
    rw [hg.seq, hg.seq] at hseq
    rw [hattempts n hn] at hpos
    by_cases hid : o.id = id
    · rw [(hends o ho hid).1]
      exact hst
    · rw [hother o ho hid]
      exact h.order n hn hpos o ho hgroup hseq

/-- The events of a pending delivery are pending, so ending them is no second end. -/
theorem Delivering.further_finish {d : AlertTables τ V} {w : Dict String Notifier} (h : Delivering d w)
    (hpending : ∀ n ∈ d.deliveries, n.id = id → n.status = .pending) (deliveries : List (Delivery τ))
    (status : EventStatus) : Further d (finishEvents id status { d with deliveries := deliveries }) := by
  refine further_mapEvents d _ (fun e => if e.batch = some id then { e with status := status } else e)
    rfl rfl rfl ?_ ?_ ?_ ?_
  · intro e
    split
    · rfl
    · rfl
  · intro e
    split
    · rfl
    · rfl
  · intro e he hne
    split
    · rename_i hb
      obtain ⟨n, hn, hnb, -, hst⟩ := h.batches e he id hb
      rw [hpending n hn hnb] at hst
      exact absurd hst hne
    · rfl
  · intro e he b hb
    split
    · exact hb
    · exact hb

end

/-! ### Materializing -/

/-- Distinct events that wait, pending and in no delivery. -/
structure Fresh (d : AlertTables τ V) (ids : List EventId) : Prop where
  nodup : ids.Nodup
  waiting : ∀ i ∈ ids, ∃ e ∈ d.events, e.id = i ∧ e.batch = none ∧ e.status = .pending

variable {ids : List EventId} {e : Event τ V}

section
omit [LinearOrder τ] [Sub τ] [Add τ] [NatCast τ] [LinearOrder V]

theorem Fresh.sublist {d : AlertTables τ V} {ids' : List EventId} (h : Fresh d ids) (hs : ids'.Sublist ids) :
    Fresh d ids' :=
  ⟨h.nodup.sublist hs, fun i hi => h.waiting i (hs.subset hi)⟩

theorem Fresh.perm {ids' : List EventId} (h : Fresh d ids) (hp : ids'.Perm ids) : Fresh d ids' :=
  ⟨hp.nodup_iff.mpr h.nodup, fun i hi => h.waiting i (hp.mem_iff.mp hi)⟩

theorem Delivering.of_fresh {d : AlertTables τ V} {w : Dict String Notifier} (h : Delivering d w) (hf : Fresh d ids)
    (he : e ∈ d.events) (hi : e.id ∈ ids) : e.batch = none ∧ e.status = .pending := by
  obtain ⟨e', he', hid, hbatch, hstatus⟩ := hf.waiting e.id hi
  have heq := inj_on_of_nodup_map h.eventIds he' he hid
  subst heq
  exact ⟨hbatch, hstatus⟩

theorem Fresh.setEvent (h : Fresh d ids) {i : EventId} (hi : i ∉ ids) (f : Event τ V → Event τ V) :
    Fresh (setEvent d i f) ids := by
  refine ⟨h.nodup, fun j hj => ?_⟩
  obtain ⟨e, he, hid, hbatch, hstatus⟩ := h.waiting j hj
  have hne : e.id ≠ i := by
    rintro rfl
    exact hi (hid ▸ hj)
  refine ⟨e, mem_map.mpr ⟨e, he, if_neg hne⟩, hid, hbatch, hstatus⟩

end

def groupedEvents (groups : Dict GroupKey (List (Event τ V))) : List (Event τ V) := groups.entries.flatMap Prod.snd

omit [LinearOrder τ] [Sub τ] [Add τ] [NatCast τ] [LinearOrder V] in
theorem groupedEvents_set (groups : Dict GroupKey (List (Event τ V))) (g : GroupKey) (e : Event τ V) :
    (groupedEvents (groups.set g ((groups.get? g).getD [] ++ [e]))).Perm (groupedEvents groups ++ [e]) := by
  have hset := (set_entries_perm groups g ((groups.get? g).getD [] ++ [e])).flatMap_right Prod.snd
  cases hget : groups.get? g with
  | none =>
    rw [hget] at hset
    refine hset.trans ?_
    have herase := erase_entries_of_none hget
    simp only [flatMap_cons, Option.getD_none, nil_append, herase, groupedEvents]
    exact perm_append_comm
  | some old =>
    rw [hget] at hset
    refine hset.trans ?_
    have hold := (entries_perm hget).flatMap_right Prod.snd
    simp only [flatMap_cons, Option.getD_some, append_assoc] at hold ⊢
    refine List.Perm.trans ?_ (hold.append_right [e]).symm
    rw [append_assoc]
    exact Perm.append_left old perm_append_comm

variable {waiting : List (Event τ V)}

section
omit [Sub τ] [Add τ] [LinearOrder V]

/-- One event: it is ended, put off, or joins its group. -/
theorem sortEvent_spec (now : τ) {d : AlertTables τ V} {w : Dict String Notifier}
    {groups : Dict GroupKey (List (Event τ V))} {rest : List (Event τ V)} (h : Delivering d w)
    (hf : Fresh d ((groupedEvents groups ++ e :: rest).map Event.id)) :
    Delivering (sortEvent now (d, groups) e).1 w ∧
      Fresh (sortEvent now (d, groups) e).1 ((groupedEvents (sortEvent now (d, groups) e).2 ++ rest).map Event.id) ∧
      Further d (sortEvent now (d, groups) e).1 := by
  have hmem : e.id ∈ (groupedEvents groups ++ e :: rest).map Event.id := by simp
  have hsub : ((groupedEvents groups ++ rest).map Event.id).Sublist
      ((groupedEvents groups ++ e :: rest).map Event.id) :=
    (Sublist.append_left (sublist_cons_self e rest) _).map _
  have hnot : e.id ∉ (groupedEvents groups ++ rest).map Event.id := by
    have hperm : ((groupedEvents groups ++ e :: rest).map Event.id).Perm
        (e.id :: (groupedEvents groups ++ rest).map Event.id) := by
      rw [← map_cons]
      exact perm_middle.map _
    exact (nodup_cons.mp (hperm.nodup_iff.mp hf.nodup)).1
  unfold sortEvent
  dsimp only
  split
  · refine ⟨?_, (hf.sublist hsub).setEvent hnot _, ?_⟩
    · apply h.mapEvents
      · intro e'
        split
        · rfl
        · rfl
      · intro e'
        split
        · rfl
        · rfl
      · intro e' he' b hb
        rw [if_neg]
        intro hid
        have := (h.of_fresh hf he' (hid ▸ hmem)).1
        rw [hb] at this
        cases this
      · intro e' he' hb
        split
        · exact .inr rfl
        · exact h.free e' he' hb
    · refine further_mapEvents d _
        (fun e' => if e'.id = e.id then { e' with status := .superseded } else e') rfl rfl rfl ?_ ?_ ?_ ?_
      · intro e'
        split
        · rfl
        · rfl
      · intro e'
        split
        · rfl
        · rfl
      · intro e' he' hne
        rw [if_neg]
        intro hid
        exact hne (h.of_fresh hf he' (hid ▸ hmem)).2
      · intro e' _ b hb
        split
        · exact hb
        · exact hb
  · split
    · refine ⟨?_, (hf.sublist hsub).setEvent hnot _, ?_⟩
      · apply h.mapEvents
        · intro e'
          split
          · rfl
          · rfl
        · intro e'
          split
          · rfl
          · rfl
        · intro e' _ b hb
          split
          · rfl
          · rfl
        · intro e' he' hb
          split
          · exact h.free e' he' hb
          · exact h.free e' he' hb
      · refine further_mapEvents d _
          (fun e' => if e'.id = e.id then { e' with due := silencedUntil d e.labels now } else e')
          rfl rfl rfl ?_ ?_ ?_ ?_
        · intro e'
          split
          · rfl
          · rfl
        · intro e'
          split
          · rfl
          · rfl
        · intro e' _ _
          split
          · rfl
          · rfl
        · intro e' _ b hb
          split
          · exact hb
          · exact hb
    · refine ⟨h, hf.perm ?_, Further.refl d⟩
      have hperm := (groupedEvents_set groups e.group e).append_right rest
      rw [append_assoc, singleton_append] at hperm
      exact hperm.map _

theorem sortEvents_spec (now : τ) (st : AlertTables τ V × Dict GroupKey (List (Event τ V))) (h : Delivering st.1 w)
    (hf : Fresh st.1 ((groupedEvents st.2 ++ waiting).map Event.id)) :
    Delivering (waiting.foldl (sortEvent now) st).1 w ∧
      Fresh (waiting.foldl (sortEvent now) st).1 ((groupedEvents (waiting.foldl (sortEvent now) st).2).map Event.id) ∧
      Further st.1 (waiting.foldl (sortEvent now) st).1 := by
  induction waiting generalizing st with
  | nil =>
    rw [append_nil] at hf
    exact ⟨h, hf, Further.refl _⟩
  | cons e rest ih =>
    obtain ⟨h₁, hf₁, hfurther⟩ := sortEvent_spec now h hf
    obtain ⟨h₂, hf₂, hfurther'⟩ := ih _ h₁ hf₁
    exact ⟨h₂, hf₂, hfurther.trans hfurther'⟩

end

section
omit [LinearOrder τ] [Sub τ] [Add τ] [NatCast τ] [LinearOrder V]

theorem batched_of_mem (h : e.id ∈ id) : e.batched id = { e with batch := some id } := if_pos h

theorem batched_of_not_mem (h : e.id ∉ id) : e.batched id = e := if_neg h

theorem batched_id (id : DeliveryId) (e : Event τ V) : (e.batched id).id = e.id := by
  unfold Event.batched
  split
  · rfl
  · rfl

theorem batched_status (id : DeliveryId) (e : Event τ V) : (e.batched id).status = e.status := by
  unfold Event.batched
  split
  · rfl
  · rfl

theorem batched_announced (id : DeliveryId) (e : Event τ V) : (e.batched id).announced = e.announced := by
  unfold Event.batched
  split
  · rfl
  · rfl

theorem Delivering.not_member {d : AlertTables τ V} {w : Dict String Notifier} (h : Delivering d w)
    (hf : Fresh d ids) {n : Delivery τ} (hn : n ∈ d.deliveries) {i : EventId} (hi : i ∈ ids) : i ∉ n.id := by
  intro hmem
  obtain ⟨e, he, rfl, hbatch⟩ := (h.members n hn).2 i hmem
  have hnone := (h.of_fresh hf he hi).1
  rw [hbatch] at hnone
  cases hnone

end

section
omit [LinearOrder τ] [Sub τ] [Add τ] [LinearOrder V]

/-- A batch of fresh events is a new delivery. -/
theorem Delivering.addDelivery_eq {d : AlertTables τ V} {w : Dict String Notifier} (h : Delivering d w) (now : τ)
    (group : GroupKey) {batch : List (Event τ V)} (hne : batch ≠ []) (hf : Fresh d (batch.map Event.id)) :
    addDelivery now group d batch = { d with
      deliveries := d.deliveries ++ [newDelivery now d group batch]
      events := d.events.map (Event.batched (batch.map Event.id)) } := by
  have hany : (d.deliveries.any fun old => old.id.isPerm (newDelivery now d group batch).id) = false := by
    rw [any_eq_false]
    intro old hold hperm
    rw [isPerm_iff] at hperm
    obtain ⟨e, he⟩ := exists_mem_of_ne_nil batch hne
    have hmem : e.id ∈ batch.map Event.id := mem_map_of_mem he
    exact h.not_member hf hold hmem (hperm.mem_iff.mpr hmem)
  unfold addDelivery insertDelivery
  rw [hany]
  rfl

theorem addDelivery_spec (now : τ) (group : GroupKey) (h : Delivering d w) {batch : List (Event τ V)}
    {rest : List EventId} (hne : batch ≠ []) (hf : Fresh d (batch.map Event.id ++ rest)) :
    Delivering (addDelivery now group d batch) w ∧ Fresh (addDelivery now group d batch) rest ∧
      Further d (addDelivery now group d batch) := by
  have hbatch := hf.sublist (sublist_append_left _ rest)
  rw [h.addDelivery_eq now group hne hbatch]
  have hnew : batch.map Event.id ∉ d.deliveries.map Delivery.id := by
    intro hmem
    obtain ⟨n, hn, hid⟩ := mem_map.mp hmem
    obtain ⟨e, he⟩ := exists_mem_of_ne_nil batch hne
    have hmem : e.id ∈ batch.map Event.id := mem_map_of_mem he
    exact h.not_member hbatch hn hmem (hid ▸ hmem)
  have hkept : ∀ e ∈ d.events, ∀ b, e.batch = some b → e.id ∉ batch.map Event.id := by
    intro e he b hb hmem
    have hnone := (h.of_fresh hbatch he hmem).1
    rw [hb] at hnone
    cases hnone
  refine ⟨?_, ?_, ?_⟩
  · constructor
    · dsimp only
      rw [map_map]
      have hmap : Event.id ∘ Event.batched (batch.map Event.id) = (Event.id : Event τ V → EventId) := by
        funext e
        exact batched_id _ e
      rw [hmap]
      exact h.eventIds
    · dsimp only
      rw [map_append, h.seqs, length_append, length_singleton, range'_1_concat, Nat.add_comm 1]
      rfl
    · dsimp only
      rw [map_append, map_singleton]
      exact h.ids.append (nodup_singleton _) (by simpa [newDelivery] using hnew)
    · intro n hn
      rw [mem_append, mem_singleton] at hn
      obtain hn | rfl := hn
      · refine ⟨(h.members n hn).1, fun i hi => ?_⟩
        obtain ⟨e, he, hei, heb⟩ := (h.members n hn).2 i hi
        refine ⟨e, mem_map.mpr ⟨e, he, ?_⟩, hei, heb⟩
        exact batched_of_not_mem (hkept e he n.id heb)
      · refine ⟨by simpa [newDelivery] using hne, fun i hi => ?_⟩
        change i ∈ batch.map Event.id at hi
        obtain ⟨e, he, rfl, -, -⟩ := hbatch.waiting i hi
        refine ⟨_, mem_map_of_mem he, batched_id _ e, ?_⟩
        rw [batched_of_mem hi]
        rfl
    · intro e' he' b hb
      obtain ⟨e, he, rfl⟩ := mem_map.mp he'
      rw [batched_id, batched_status]
      by_cases hmem : e.id ∈ batch.map Event.id
      · rw [batched_of_mem hmem] at hb
        cases hb
        refine ⟨_, mem_append_right _ (mem_singleton_self _), rfl, hmem, ?_⟩
        exact (h.of_fresh hbatch he hmem).2
      · rw [batched_of_not_mem hmem] at hb
        obtain ⟨n, hn, hrest⟩ := h.batches e he b hb
        exact ⟨n, mem_append_left _ hn, hrest⟩
    · intro e' he' hb
      obtain ⟨e, he, rfl⟩ := mem_map.mp he'
      rw [batched_status]
      by_cases hmem : e.id ∈ batch.map Event.id
      · exact .inl (h.of_fresh hbatch he hmem).2
      · rw [batched_of_not_mem hmem] at hb
        exact h.free e he hb
    · intro id hid
      dsimp only
      rw [map_append]
      exact mem_append_left _ (h.claimed id hid)
    · intro n hn
      rw [mem_append, mem_singleton] at hn
      obtain hn | rfl := hn
      · exact h.each n hn
      · refine ⟨Nat.zero_le 5, ?_, fun l hl => nomatch hl⟩
        by_contra hclaims
        exact hnew (h.claimed _ (Nat.pos_of_ne_zero hclaims))
    · intro n hn hpos o ho hgroup hseq
      rw [mem_append, mem_singleton] at hn ho
      obtain hn | rfl := hn
      · obtain ho | rfl := ho
        · exact h.order n hn hpos o ho hgroup hseq
        · -- the newest delivery is behind all others
          have hmem : n.seq ∈ d.deliveries.map Delivery.seq := mem_map_of_mem hn
          rw [h.seqs, mem_range'_1] at hmem
          have hlast : (newDelivery now d group batch).seq = d.deliveries.length + 1 := rfl
          omega
      · exact absurd hpos (Nat.lt_irrefl 0)
  · have hnodup := nodup_append.mp hf.nodup
    refine ⟨hnodup.2.1, fun i hi => ?_⟩
    obtain ⟨e, he, rfl, hnone, hpending⟩ := hf.waiting i (mem_append_right _ hi)
    refine ⟨e, mem_map.mpr ⟨e, he, batched_of_not_mem ?_⟩, rfl, hnone, hpending⟩
    intro hmem
    exact hnodup.2.2 _ hmem _ hi rfl
  · refine further_mapEvents d _ (Event.batched (batch.map Event.id)) rfl rfl rfl (batched_id _)
      (batched_announced _) (fun e _ _ => batched_status _ e) ?_
    intro e he b hb
    rw [batched_of_not_mem (hkept e he b hb)]
    exact hb

end

section
omit [LinearOrder τ] [Sub τ] [Add τ] [NatCast τ] [LinearOrder V]

theorem batches_flatten {n : ℕ} {events : List (Event τ V)} (h : events.length ≤ n) :
    (batches n events).flatten = events := by
  induction n generalizing events with
  | zero =>
    rw [Nat.le_zero, length_eq_zero_iff] at h
    subst h
    rfl
  | succ n ih =>
    cases events with
    | nil => rfl
    | cons e events =>
      unfold batches
      rw [flatten_cons, ih]
      · exact take_append_drop 100 (e :: events)
      · rw [length_drop]
        omega

theorem batches_ne_nil {n : ℕ} {events : List (Event τ V)} : ∀ b ∈ batches n events, b ≠ [] := by
  induction n generalizing events with
  | zero =>
    cases events with
    | nil => simp [batches]
    | cons e events => simp [batches]
  | succ n ih =>
    cases events with
    | nil => simp [batches]
    | cons e events =>
      intro b hb
      rw [batches, mem_cons] at hb
      · obtain rfl | hb := hb
        · simp
        · exact ih b hb
      · simp

end

section
omit [LinearOrder τ] [Sub τ] [Add τ] [LinearOrder V]

theorem addDeliveries_spec (now : τ) (group : GroupKey) {bs : List (List (Event τ V))} (hne : ∀ b ∈ bs, b ≠ [])
    {rest : List EventId} (h : Delivering d w) (hf : Fresh d (bs.flatten.map Event.id ++ rest)) :
    Delivering (bs.foldl (addDelivery now group) d) w ∧ Fresh (bs.foldl (addDelivery now group) d) rest ∧
      Further d (bs.foldl (addDelivery now group) d) := by
  induction bs generalizing d with
  | nil => exact ⟨h, hf, Further.refl d⟩
  | cons b bs ih =>
    rw [flatten_cons, map_append, append_assoc] at hf
    obtain ⟨h₁, hf₁, hfurther⟩ := addDelivery_spec now group h (hne b mem_cons_self) hf
    obtain ⟨h₂, hf₂, hfurther'⟩ := ih (fun b' hb' => hne b' (mem_cons_of_mem _ hb')) h₁ hf₁
    exact ⟨h₂, hf₂, hfurther.trans hfurther'⟩

theorem addGroups_spec (now : τ) {groups : List (GroupKey × List (Event τ V))} (h : Delivering d w)
    (hf : Fresh d ((groups.flatMap Prod.snd).map Event.id)) :
    Delivering (groups.foldl (addGroup now) d) w ∧ Further d (groups.foldl (addGroup now) d) := by
  induction groups generalizing d with
  | nil => exact ⟨h, Further.refl d⟩
  | cons g groups ih =>
    rw [flatMap_cons, map_append, ← batches_flatten (le_refl g.2.length)] at hf
    obtain ⟨h₁, hf₁, hfurther⟩ := addDeliveries_spec now g.1 batches_ne_nil h hf
    obtain ⟨h₂, hfurther'⟩ := ih h₁ hf₁
    exact ⟨h₂, hfurther.trans hfurther'⟩

end

omit [Sub τ] [Add τ] [LinearOrder V] in
theorem materialize_spec {now : τ} (h : Delivering d w) (hw : Picked now d waiting) :
    Delivering (materialize now d waiting) w ∧ Further d (materialize now d waiting) := by
  have hf : Fresh d ((groupedEvents (.empty : Dict GroupKey (List (Event τ V))) ++ waiting).map Event.id) := by
    refine ⟨hw.nodup, fun i hi => ?_⟩
    obtain ⟨e, he, rfl⟩ := mem_map.mp hi
    obtain ⟨hmem, hwaiting⟩ := hw.events e he
    simp only [Event.waiting, Bool.and_eq_true, decide_eq_true_eq, Option.isNone_iff_eq_none] at hwaiting
    exact ⟨e, hmem, rfl, hwaiting.1.2, hwaiting.1.1⟩
  obtain ⟨h₁, hf₁, hfurther⟩ := sortEvents_spec now (d, .empty) h hf
  obtain ⟨h₂, hfurther'⟩ := addGroups_spec now h₁ hf₁
  exact ⟨h₂, hfurther.trans hfurther'⟩

/-! ### Claiming -/

section
omit [LinearOrder τ] [Sub τ] [Add τ] [NatCast τ] [LinearOrder V]

theorem further_setDelivery (d : AlertTables τ V) (p : Delivery τ → Bool) (f : Delivery τ → Delivery τ) :
    Further d (setDelivery d p f) :=
  ⟨⟨rfl, rfl, fun _ => rfl⟩, .of_subset (Subset.refl _)⟩

theorem sameNames_ite {p : Delivery τ → Bool} {f : Delivery τ → Delivery τ} (hf : SameNames f) :
    SameNames fun n => if p n then f n else n := by
  constructor
  · intro n
    split
    · exact hf.id n
    · rfl
  · intro n
    split
    · exact hf.seq n
    · rfl
  · intro n
    split
    · exact hf.group n
    · rfl

end

section
omit [LinearOrder τ] [Sub τ] [Add τ] [LinearOrder V]

theorem killDelivery_spec (h : Delivering d w) (hpending : ∀ n ∈ d.deliveries, n.id = id → n.status = .pending) :
    Delivering (killDelivery d id) w ∧ Further d (killDelivery d id) := by
  refine ⟨?_, h.further_finish hpending _ _⟩
  have hg : SameNames (Delivery.dies : Delivery τ → Delivery τ) := ⟨fun _ => rfl, fun _ => rfl, fun _ => rfl⟩
  apply h.finish _ (sameNames_ite hg) .dead
  · exact fun hc => nomatch hc
  · intro n _ hne
    simp [hne]
  · intro n _ hid
    simp [hid, Delivery.dies]

theorem killDeliveries_spec {ids : List DeliveryId} (hnodup : ids.Nodup) (h : Delivering d w)
    (hpending : ∀ id ∈ ids, ∀ n ∈ d.deliveries, n.id = id → n.status = .pending) :
    Delivering (ids.foldl killDelivery d) w ∧ Further d (ids.foldl killDelivery d) := by
  induction ids generalizing d with
  | nil => exact ⟨h, Further.refl d⟩
  | cons id ids ih =>
    rw [nodup_cons] at hnodup
    obtain ⟨h₁, hfurther⟩ := killDelivery_spec h (hpending id mem_cons_self)
    have hpending₁ : ∀ i ∈ ids, ∀ n ∈ (killDelivery d id).deliveries, n.id = i → n.status = .pending := by
      intro i hi n hn hid
      obtain ⟨m, hm, rfl⟩ := mem_map.mp hn
      by_cases hmid : m.id = id
      · simp only [hmid, decide_true, if_true] at hid
        subst hid
        exact absurd hmid (fun heq => hnodup.1 (heq ▸ hi))
      · simp only [hmid, decide_false] at hid ⊢
        exact hpending i (mem_cons_of_mem _ hi) m hm hid
    obtain ⟨h₂, hfurther'⟩ := ih hnodup.2 h₁ hpending₁
    exact ⟨h₂, hfurther.trans hfurther'⟩

end

omit [Sub τ] [Add τ] [LinearOrder V] in
theorem buryExhausted_spec (now : τ) (h : Delivering d w) :
    Delivering (buryExhausted now d) w ∧ Further d (buryExhausted now d) := by
  have hsub : ((d.deliveries.filter (Delivery.exhausted now)).take 1000).Sublist d.deliveries :=
    (take_sublist _ _).trans filter_sublist
  apply killDeliveries_spec (h.ids.sublist (hsub.map _)) h
  intro id hid n hn hnid
  obtain ⟨m, hm, rfl⟩ := mem_map.mp hid
  have heq := inj_on_of_nodup_map h.ids hn (hsub.subset hm) hnid
  subst heq
  have hexhausted := (mem_filter.mp (mem_of_mem_take hm)).2
  simp only [Delivery.exhausted, Bool.and_eq_true, decide_eq_true_eq] at hexhausted
  exact hexhausted.1.1

variable {lease : String}

theorem claimsOf_set_new (hl : w.get? lease = none) (x : Notifier) (id : DeliveryId) :
    claimsOf (w.set lease x) id = claimsOf w id + if x.id = id then 1 else 0 := by
  have hperm := (set_entries_perm w lease x).map fun e => e.2.id
  rw [erase_entries_of_none hl] at hperm
  rw [claimsOf, hperm.count_eq, map_cons, count_cons]
  simp [claimsOf]

theorem claimsOf_set_old {x : Notifier} (hl : w.get? lease = some x) {x' : Notifier} (hid : x'.id = x.id)
    (id : DeliveryId) : claimsOf (w.set lease x') id = claimsOf w id := by
  have hset := (set_entries_perm w lease x').map fun e => e.2.id
  have hold := (entries_perm hl).map fun e => e.2.id
  rw [claimsOf, hset.count_eq, claimsOf, hold.count_eq, map_cons, map_cons, hid]

omit [LinearOrder τ] [Sub τ] [Add τ] [NatCast τ] [LinearOrder V] in
theorem Delivering.proceed (h : Delivering d w) {x x' : Notifier} (hl : w.get? lease = some x) (hid : x'.id = x.id)
    (hattempts : x'.attempts = x.attempts) : Delivering d (w.set lease x') := by
  apply h.notifiers
  · intro l y hy
    by_cases hlease : l = lease
    · subst hlease
      rw [hl] at hy
      cases hy
      exact ⟨x', get?_set_self _ _ _, hid, hattempts⟩
    · exact ⟨y, by rw [get?_set_of_ne _ hlease]; exact hy, rfl, rfl⟩
  · exact claimsOf_set_old hl hid

omit [Sub τ] [Add τ] [NatCast τ] [LinearOrder V] in
theorem claimDelivery_spec {now : τ} {task : Delivery τ} (h : claimDelivery now d = some task) :
    task ∈ d.deliveries ∧ task.status = .pending ∧ task.attempts < 5 ∧
      ∀ o ∈ d.deliveries, o.group = task.group → o.seq < task.seq → o.status ≠ .pending := by
  refine ⟨mem_of_find?_eq_some h, ?_⟩
  have hclaimable := find?_some h
  simp only [Delivery.claimable, Bool.and_eq_true, decide_eq_true_eq, all_eq_true] at hclaimable
  obtain ⟨⟨⟨⟨hpending, hattempts⟩, -⟩, -⟩, hfront⟩ := hclaimable
  refine ⟨hpending, hattempts, fun o ho hgroup hseq hstatus => ?_⟩
  have := hfront o ho
  simp [hgroup, hseq, hstatus] at this

omit [LinearOrder τ] [Sub τ] [LinearOrder V] in
/-- The delivery at the front of its group is claimed under a new lease. -/
theorem Delivering.claim {d : AlertTables τ V} {w : Dict String Notifier} (h : Delivering d w)
    (now : τ) {lease : String} (hl : w.get? lease = none) {task : Delivery τ}
    (hmem : task ∈ d.deliveries) (hpending : task.status = .pending) (hattempts : task.attempts < 5)
    (hfront : ∀ o ∈ d.deliveries, o.group = task.group → o.seq < task.seq → o.status ≠ .pending)
    (phase : NotifyPhase) :
    Delivering (setDelivery d (fun n => n.id = task.id) (Delivery.claimedBy now lease))
      (w.set lease ⟨task.id, task.attempts + 1, phase⟩) := by
  have htask : ∀ n ∈ d.deliveries, n.id = task.id → n = task := fun n hn hid => inj_on_of_nodup_map h.ids hn hmem hid
  have hg : SameNames (Delivery.claimedBy now lease) := ⟨fun _ => rfl, fun _ => rfl, fun _ => rfl⟩
  apply h.mapDeliveries (sameNames_ite hg)
  · intro n _
    split
    · rfl
    · rfl
  · intro id hid
    rw [claimsOf_set_new hl] at hid
    by_cases hid' : task.id = id
    · exact hid' ▸ mem_map_of_mem hmem
    · rw [if_neg hid'] at hid
      exact h.claimed id hid
  · intro n hn
    by_cases hid : n.id = task.id
    · have := htask n hn hid
      subst this
      simp only [decide_true, if_true]
      refine ⟨hattempts, ?_, fun l hl' => ?_⟩
      · rw [claimsOf_set_new hl]
        simp [Delivery.claimedBy, (h.each n hn).claims]
      · cases hl'
        exact ⟨hpending, _, get?_set_self _ _ _, rfl, rfl⟩
    · simp only [hid, decide_false, Bool.false_eq_true, if_false]
      refine ⟨(h.each n hn).attempts, ?_, fun l hl' => ?_⟩
      · rw [claimsOf_set_new hl, if_neg (Ne.symm hid)]
        exact (h.each n hn).claims
      · obtain ⟨hp, x, hx, hrest⟩ := (h.each n hn).lease l hl'
        refine ⟨hp, x, ?_, hrest⟩
        rw [get?_set_of_ne]
        · exact hx
        · rintro rfl
          rw [hl] at hx
          cases hx
  · intro n hn hpos
    by_cases hid : n.id = task.id
    · have := htask n hn hid
      subst this
      exact hfront
    · simp only [hid, decide_false, Bool.false_eq_true, if_false] at hpos
      exact h.order n hn hpos

omit [LinearOrder τ] [Sub τ] [Add τ] [NatCast τ] [LinearOrder V] in
theorem Delivering.postpone {d : AlertTables τ V} {w : Dict String Notifier} (h : Delivering d w)
    (p : Delivery τ → Bool) (due : τ) :
    Delivering (setDelivery d p fun n => { n with due := due }) w := by
  have hg : SameNames fun n : Delivery τ => { n with due := due } := ⟨fun _ => rfl, fun _ => rfl, fun _ => rfl⟩
  have hattempts : ∀ n : Delivery τ, (if p n = true then { n with due := due } else n).attempts = n.attempts := by
    intro n
    split
    · rfl
    · rfl
  apply h.mapDeliveries (sameNames_ite hg)
  · intro n _
    split
    · rfl
    · rfl
  · exact h.claimed
  · intro n hn
    obtain ⟨ha, hclaims, hlease⟩ := h.each n hn
    split
    · exact ⟨ha, hclaims, hlease⟩
    · exact ⟨ha, hclaims, hlease⟩
  · intro n hn hpos
    rw [hattempts] at hpos
    exact h.order n hn hpos

/-- The notifiers once a worker claimed a delivery, or none. -/
def notifiersAfter (w : Dict String Notifier) (lease : String) : Option (Delivery τ) → Dict String Notifier
  | none => w
  | some task => w.set lease ⟨task.id, task.attempts + 1, .claimed⟩

omit [Sub τ] [LinearOrder V] in
/-- The first transaction of a delivery worker. -/
theorem notifyBegin_spec {now : τ} {lease : String} {d d' : AlertTables τ V} {w : Dict String Notifier}
    {claimed : Option (Delivery τ)} (h : Delivering d w) (hw : Picked now d waiting)
    (hl : w.get? lease = none ∨ claimed = none) (hd : notifyBegin now lease d waiting = (d', claimed)) :
    Further d d' ∧ Delivering d' (notifiersAfter w lease claimed) := by
  obtain ⟨h₁, hfurther₁⟩ := materialize_spec h hw
  obtain ⟨h₂, hfurther₂⟩ := buryExhausted_spec now h₁
  have hfurther := hfurther₁.trans hfurther₂
  unfold notifyBegin at hd
  dsimp only at hd
  generalize buryExhausted now (materialize now d waiting) = d₂ at hd h₂ hfurther
  cases hclaim : claimDelivery now d₂ with
  | none =>
    rw [hclaim] at hd
    cases hd
    exact ⟨hfurther, h₂⟩
  | some task =>
    rw [hclaim] at hd
    dsimp only at hd
    obtain ⟨hmem, hpending, hattempts, hfront⟩ := claimDelivery_spec hclaim
    split at hd
    · cases hd
      exact ⟨hfurther.trans (further_setDelivery _ _ _), h₂.postpone _ _⟩
    · cases hd
      have hnew : w.get? lease = none := by
        obtain hl | hl := hl
        · exact hl
        · cases hl
      exact ⟨hfurther.trans (further_setDelivery _ _ _), h₂.claim now hnew hmem hpending hattempts hfront _⟩

/-! ### Ending an attempt -/

omit [LinearOrder τ] [Sub τ] [LinearOrder V] in
theorem Delivering.notifyEnd {d : AlertTables τ V} {w : Dict String Notifier} (h : Delivering d w)
    {lease : String} {x : Notifier} (hx : w.get? lease = some x) (finished : τ) (error : Option String) :
    Delivering (notifyEnd finished d x.id lease x.attempts error) w ∧
      Further d (notifyEnd finished d x.id lease x.attempts error) := by
  by_cases hleased : ∃ n ∈ d.deliveries, leased x.id lease n = true
  · obtain ⟨n, hn, hlease⟩ := hleased
    have hany : d.deliveries.any (leased x.id lease) = true := any_eq_true.mpr ⟨n, hn, hlease⟩
    simp only [leased, Bool.and_eq_true, decide_eq_true_eq] at hlease
    obtain ⟨hpending, x', hx', -, hattempts⟩ := (h.each n hn).lease lease hlease.2
    rw [hx] at hx'
    cases hx'
    -- the leased delivery is the only one of its name
    have honly : ∀ m ∈ d.deliveries, m.id = x.id → m = n := fun m hm hid =>
      inj_on_of_nodup_map h.ids hm hn (hid.trans hlease.1.symm)
    have hother : ∀ m : Delivery τ, m.id ≠ x.id → leased x.id lease m = false := by
      intro m hid
      simp [leased, hid]
    have hthis : leased x.id lease n = true := by simp [leased, hlease]
    have hstatus : ∀ m ∈ d.deliveries, m.id = x.id → m.status = .pending := by
      intro m hm hid
      rw [honly m hm hid]
      exact hpending
    have hends : ∀ (f : Delivery τ → Delivery τ) (st : DeliveryStatus), (f n).status = st →
        (f n).lease = none → (f n).attempts = x.attempts → ∀ m ∈ d.deliveries, m.id = x.id →
        (if leased x.id lease m = true then f m else m).status = st ∧
        (if leased x.id lease m = true then f m else m).lease = none ∧
        (if leased x.id lease m = true then f m else m).attempts = m.attempts := by
      intro f st hst hnone ha m hm hid
      rw [honly m hm hid, if_pos hthis]
      exact ⟨hst, hnone, ha.trans hattempts⟩
    unfold Metrics.notifyEnd
    dsimp only
    rw [hany]
    cases error with
    | none =>
      dsimp only
      rw [if_pos rfl]
      refine ⟨?_, h.further_finish hstatus _ _⟩
      have hg : SameNames (Delivery.sentAfter x.attempts : Delivery τ → Delivery τ) :=
        ⟨fun _ => rfl, fun _ => rfl, fun _ => rfl⟩
      apply h.finish _ (sameNames_ite hg) .sent
      · exact fun hc => nomatch hc
      · intro m _ hid
        rw [if_neg]
        simp [hother m hid]
      · exact hends (Delivery.sentAfter x.attempts) .sent rfl rfl rfl
    | some error =>
      dsimp only
      have hg : SameNames (Delivery.failedAfter x.attempts (finished + ((min 300 (2 ^ x.attempts) : ℕ) : τ)) error) :=
        ⟨fun _ => rfl, fun _ => rfl, fun _ => rfl⟩
      by_cases hlast : x.attempts ≥ 5
      · rw [if_pos ⟨rfl, hlast⟩]
        refine ⟨?_, h.further_finish hstatus _ _⟩
        apply h.finish _ (sameNames_ite hg) .dead
        · exact fun hc => nomatch hc
        · intro m _ hid
          rw [if_neg]
          simp [hother m hid]
        · exact hends _ .dead (if_pos hlast) rfl rfl
      · rw [if_neg fun hc => hlast hc.2]
        refine ⟨?_, further_setDelivery _ _ _⟩
        have hends' := hends (Delivery.failedAfter x.attempts
          (finished + ((min 300 (2 ^ x.attempts) : ℕ) : τ)) error) .pending (if_neg hlast) rfl rfl
        apply h.mapDeliveries (sameNames_ite hg)
        · intro m hm
          by_cases hid : m.id = x.id
          · rw [(hends' m hm hid).1, hstatus m hm hid]
          · rw [if_neg]
            simp [hother m hid]
        · exact h.claimed
        · intro m hm
          by_cases hid : m.id = x.id
          · obtain ⟨-, hnone, ha⟩ := hends' m hm hid
            refine ⟨by rw [ha]; exact (h.each m hm).attempts, ?_, fun l hl => ?_⟩
            · rw [(sameNames_ite hg).id, ha]
              exact (h.each m hm).claims
            · rw [hnone] at hl
              cases hl
          · rw [if_neg]
            · exact h.each m hm
            · simp [hother m hid]
        · intro m hm hpos
          by_cases hid : m.id = x.id
          · rw [(hends' m hm hid).2.2] at hpos
            exact h.order m hm hpos
          · rw [if_neg] at hpos
            · exact h.order m hm hpos
            · simp [hother m hid]
  · -- the lease was lost: nothing is written
    have hany : d.deliveries.any (leased x.id lease) = false := by
      rw [any_eq_false]
      exact fun n hn hc => hleased ⟨n, hn, hc⟩
    have hset : ∀ f : Delivery τ → Delivery τ, setDelivery d (leased x.id lease) f = d := by
      intro f
      unfold setDelivery
      have hmap : (d.deliveries.map fun n => if leased x.id lease n = true then f n else n) = d.deliveries := by
        conv_rhs => rw [← List.map_id d.deliveries]
        apply map_congr_left
        intro n hn
        exact if_neg fun hc => hleased ⟨n, hn, hc⟩
      rw [hmap]
    unfold Metrics.notifyEnd
    dsimp only
    rw [hany]
    cases error with
    | none =>
      simp only [hset]
      exact ⟨h, Further.refl d⟩
    | some error =>
      simp only [hset]
      rw [if_neg fun hc => nomatch hc.1]
      exact ⟨h, Further.refl d⟩

/-! ### New events -/

section
omit [LinearOrder τ] [Sub τ] [Add τ] [NatCast τ] [LinearOrder V]

theorem Delivering.same (h : Delivering d w) (hevents : d'.events = d.events)
    (hdeliveries : d'.deliveries = d.deliveries) : Delivering d' w := by
  obtain ⟨alerts, evaluations, events, deliveries, silences⟩ := d'
  dsimp only at hevents hdeliveries
  subst hevents hdeliveries
  exact ⟨h.eventIds, h.seqs, h.ids, h.members, h.batches, h.free, h.claimed, h.each, h.order⟩

theorem Delivering.addEvent {d : AlertTables τ V} {w : Dict String Notifier} (h : Delivering d w)
    (hbatch : e.batch = none) (hstatus : e.status = .pending) : Delivering (addEvent d e) w := by
  unfold Metrics.addEvent
  split
  · exact h
  · rename_i hany
    have hnew : e.id ∉ d.events.map Event.id := by
      intro hmem
      obtain ⟨old, hold, hid⟩ := mem_map.mp hmem
      exact hany (any_eq_true.mpr ⟨old, hold, decide_eq_true hid⟩)
    constructor
    · dsimp only
      rw [map_append, map_singleton]
      exact h.eventIds.append (nodup_singleton _) (by simpa using hnew)
    · exact h.seqs
    · exact h.ids
    · intro n hn
      refine ⟨(h.members n hn).1, fun i hi => ?_⟩
      obtain ⟨e', he', hrest⟩ := (h.members n hn).2 i hi
      exact ⟨e', mem_append_left _ he', hrest⟩
    · intro e' he' b hb
      rw [mem_append, mem_singleton] at he'
      obtain he' | rfl := he'
      · exact h.batches e' he' b hb
      · rw [hbatch] at hb
        cases hb
    · intro e' he' hb
      rw [mem_append, mem_singleton] at he'
      obtain he' | rfl := he'
      · exact h.free e' he' hb
      · exact .inl hstatus
    · exact h.claimed
    · exact h.each
    · exact h.order

end

section
omit [LinearOrder V] [Sub τ] [Add τ]

theorem Delivering.applyUpdate {d : AlertTables τ V} {w : Dict String Notifier} (h : Delivering d w)
    (rule : Rule τ V) (now : τ) (u : Update τ V) :
    Delivering (applyUpdate rule now d u) w ∧ Settles d (applyUpdate rule now d u) := by
  unfold Metrics.applyUpdate
  dsimp only
  split
  · constructor
    · apply Delivering.addEvent
      · exact h.same rfl rfl
      · rfl
      · rfl
    · apply Settles.of_subset
      unfold Metrics.addEvent
      split
      · exact Subset.refl _
      · exact subset_append_left _ _
  · exact ⟨h.same rfl rfl, Settles.of_subset (Subset.refl _)⟩

theorem Delivering.applyUpdates (rule : Rule τ V) (now : τ) (updates : List (Update τ V)) (h : Delivering d w) :
    Delivering (updates.foldl (Metrics.applyUpdate rule now) d) w ∧
      Settles d (updates.foldl (Metrics.applyUpdate rule now) d) := by
  induction updates generalizing d with
  | nil => exact ⟨h, .of_subset (Subset.refl _)⟩
  | cons u updates ih =>
    obtain ⟨h₁, hsettles⟩ := h.applyUpdate rule now u
    obtain ⟨h₂, hsettles'⟩ := ih h₁
    exact ⟨h₂, hsettles.trans hsettles'⟩

end

omit [Add τ] [LinearOrder V] in
theorem Delivering.accept {beginning : τ} (h : Delivering d w) {c : Computed τ V}
    (hd : accept beginning d c = some d') : Delivering d' w ∧ Settles d d' := by
  obtain ⟨-, -, -, -, hevents, hdeliveries⟩ := accept_spec hd
  obtain ⟨h₁, hsettles⟩ := h.applyUpdates c.rule c.now c.updates
  refine ⟨h₁.same hevents ?_, ?_⟩
  · rw [hdeliveries, deliveries_applyUpdates]
  · intro e he
    rw [hevents]
    exact hsettles e he

end

end SystemDesign.Metrics
