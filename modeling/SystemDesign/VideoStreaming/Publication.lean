import SystemDesign.VideoStreaming.Leases

/-!
Completion and publication.

The outputs of the terminal tasks have no name in common, so that the published assets contain
each of them. A publication is done only after everything that its plan lists.
-/

namespace SystemDesign.VideoStreaming

open Dict List

/-! ### Plans -/

namespace Plan

variable (plan : Plan)

theorem mem_inner {task : Task} : task ∈ plan.inner ↔ task = ⟨"inspect", .inspect, none, []⟩ ∨
    plan.preprocess = true ∧ task = ⟨"preprocess", .preprocess, none, ["inspect"]⟩ ∨
    plan.thumbnail = true ∧ task = ⟨"thumbnail", .thumbnail, none, [plan.predecessor]⟩ ∨
    ∃ p ∈ plan.profiles, task = ⟨encodeName p, .encode, some p, [plan.predecessor]⟩ := by
  unfold inner
  rw [mem_append, mem_append, mem_append, mem_singleton, or_assoc, or_assoc]
  refine or_congr_right (or_congr ?_ (or_congr ?_ ?_))
  · split
    · rename_i htrue
      simp [htrue]
    · rename_i hfalse
      simp [hfalse]
  · split
    · rename_i htrue
      simp [htrue]
    · rename_i hfalse
      simp [hfalse]
  · simp [eq_comm]

theorem mem_tasks {task : Task} : task ∈ plan.tasks ↔
    task ∈ plan.inner ∨ task = ⟨"publish", .publish, none, plan.terminals⟩ := by
  rw [tasks, mem_append, mem_singleton]

theorem mem_terminals {name : String} : name ∈ plan.terminals ↔
    ∃ task ∈ plan.inner, (task.kind = .encode ∨ task.kind = .thumbnail) ∧ task.name = name := by
  unfold terminals
  rw [mem_map]
  refine exists_congr fun task => ?_
  rw [mem_filter, decide_eq_true_eq, and_assoc]

theorem publish_of_kind {task : Task} (h : task ∈ plan.tasks) (hkind : task.kind = .publish) :
    task = ⟨"publish", .publish, none, plan.terminals⟩ := by
  obtain h | h := plan.mem_tasks.mp h
  · obtain rfl | ⟨-, rfl⟩ | ⟨-, rfl⟩ | ⟨p, -, rfl⟩ := plan.mem_inner.mp h <;> cases hkind
  · exact h

/-- What contains the publication and the dependencies of its tasks contains them all. -/
theorem all_of_publish (done : String → Prop) (hpublish : done "publish")
    (hclosed : ∀ task ∈ plan.tasks, done task.name → ∀ dep ∈ task.dependencies, done dep) :
    ∀ task ∈ plan.tasks, done task.name := by
  have hterminal : ∀ name ∈ plan.terminals, done name := hclosed _ (plan.mem_tasks.mpr (.inr rfl)) hpublish
  have hencode : ∀ p ∈ plan.profiles, done (encodeName p) ∧ done plan.predecessor := by
    intro p hp
    have hmem : (⟨encodeName p, .encode, some p, [plan.predecessor]⟩ : Task) ∈ plan.inner :=
      plan.mem_inner.mpr (.inr (.inr (.inr ⟨p, hp, rfl⟩)))
    have hdone := hterminal (encodeName p) (plan.mem_terminals.mpr ⟨_, hmem, .inl rfl, rfl⟩)
    exact ⟨hdone, hclosed _ (plan.mem_tasks.mpr (.inl hmem)) hdone _ (mem_singleton.mpr rfl)⟩
  obtain ⟨p, hp⟩ := exists_mem_of_ne_nil plan.profiles plan.nonempty
  have hpredecessor := (hencode p hp).2
  have hpreprocess : plan.preprocess = true → done "preprocess" := by
    intro htrue
    rw [predecessor, if_pos htrue] at hpredecessor
    exact hpredecessor
  have hinspect : done "inspect" := by
    by_cases htrue : plan.preprocess = true
    · exact hclosed _ (plan.mem_tasks.mpr (.inl (plan.mem_inner.mpr (.inr (.inl ⟨htrue, rfl⟩))))) (hpreprocess htrue) _
        (mem_singleton.mpr rfl)
    · rw [predecessor, if_neg htrue] at hpredecessor
      exact hpredecessor
  intro task htask
  obtain hinner | rfl := plan.mem_tasks.mp htask
  · obtain rfl | ⟨htrue, rfl⟩ | ⟨htrue, rfl⟩ | ⟨p, hp, rfl⟩ := plan.mem_inner.mp hinner
    · exact hinspect
    · exact hpreprocess htrue
    · exact hterminal _ (plan.mem_terminals.mpr ⟨_, hinner, .inr rfl, rfl⟩)
    · exact (hencode p hp).1
  · exact hpublish

/-! ### Names -/

theorem encodeName_injective : ∀ p ∈ PROFILES, ∀ q ∈ PROFILES, encodeName p = encodeName q → p = q := by
  decide

theorem encodeName_new : ∀ p ∈ PROFILES, encodeName p ∉ ["inspect", "preprocess", "thumbnail", "publish"] := by
  decide

theorem tasks_distinct : (plan.tasks.map (·.name)).Nodup := by
  have hencode : (plan.profiles.map encodeName).Nodup :=
    plan.distinct.map_on fun p hp q hq => encodeName_injective p (plan.supported p hp) q (plan.supported q hq)
  have hnew : ∀ name ∈ plan.profiles.map encodeName, name ∉ ["inspect", "preprocess", "thumbnail", "publish"] := by
    intro name hname
    obtain ⟨p, hp, rfl⟩ := mem_map.mp hname
    exact encodeName_new p (plan.supported p hp)
  have hfixed : ∀ names : List String, (names ++ ["publish"]).Nodup →
      names ++ ["publish"] ⊆ ["inspect", "preprocess", "thumbnail", "publish"] →
      (names ++ plan.profiles.map encodeName ++ ["publish"]).Nodup := by
    intro names hnodup hsub
    have hperm : (names ++ plan.profiles.map encodeName ++ ["publish"]).Perm
        (names ++ ["publish"] ++ plan.profiles.map encodeName) := by
      rw [append_assoc, append_assoc]
      exact perm_append_comm.append_left names
    rw [hperm.nodup_iff, nodup_append']
    exact ⟨hnodup, hencode, fun name hname hname' => hnew name hname' (hsub hname)⟩
  unfold tasks inner
  rw [map_append, map_append, map_append, map_append, map_map]
  change ((_ ++ _ ++ _ ++ plan.profiles.map encodeName) ++ ["publish"]).Nodup
  refine hfixed _ ?_ ?_
  · cases plan.preprocess <;> cases plan.thumbnail <;> simp
  · cases plan.preprocess <;> cases plan.thumbnail <;> simp

end Plan

namespace Db

variable {c : Setup} {db db' : Db}

/-! ### Names of assets -/

def root (p : ℕ) : List Char := (toString p ++ "/").toList

theorem root_apart : ∀ p ∈ PROFILES, ∀ q ∈ PROFILES, root p <+: root q → p = q := by
  decide

theorem root_thumbnail : ∀ p ∈ PROFILES, ¬ root p <+: "thumbnail.png".toList := by
  decide

theorem root_special : ∀ p ∈ PROFILES, ¬ root p <+: "key.bin".toList ∧ ¬ root p <+: "master.m3u8".toList := by
  decide

theorem root_unique {p q : ℕ} (hp : p ∈ PROFILES) (hq : q ∈ PROFILES) {name : List Char} (h : root p <+: name)
    (h' : root q <+: name) : p = q := by
  obtain hcase | hcase := prefix_or_prefix_of_prefix h h'
  · exact root_apart p hp q hq hcase
  · exact (root_apart q hq p hp hcase).symm

variable {name : String}

theorem isNumbered_prefix {before after : String} (h : isNumbered before after name = true) :
    before.toList <+: name.toList := by
  unfold isNumbered at h
  dsimp only at h
  rw [Bool.and_eq_true, Bool.and_eq_true, decide_eq_true_eq] at h
  rw [← h.1.1]
  exact take_prefix _ _

variable {job : Job}

theorem validateAssets_encode {names : List String} {p : ℕ} (h : validateAssets job names = true)
    (hkind : job.kind = .encode) (hprofile : job.profile = some p) (hname : name ∈ names) : root p <+: name.toList := by
  unfold validateAssets at h
  rw [hkind, hprofile] at h
  dsimp only at h
  rw [Bool.and_eq_true, Bool.and_eq_true, all_eq_true] at h
  have hcase := h.2 name hname
  rw [Bool.or_eq_true, decide_eq_true_eq] at hcase
  obtain rfl | hnumbered := hcase
  · rw [String.toList_append]
    exact prefix_append _ _
  · have hlonger := isNumbered_prefix hnumbered
    rw [String.toList_append] at hlonger
    exact (prefix_append _ _).trans hlonger

theorem validateAssets_thumbnail {names : List String} (h : validateAssets job names = true)
    (hkind : job.kind = .thumbnail) (hname : name ∈ names) : name = "thumbnail.png" := by
  unfold validateAssets at h
  rw [hkind] at h
  dsimp only at h
  rw [Bool.and_eq_true, all_eq_true] at h
  exact of_decide_eq_true (h.1 name hname)

/-! ### Rows of a plan -/

theorem Sound.plan_of_mem (h : Sound c db) (hjob : job ∈ db.jobs) : ∃ plan : Plan,
    (∀ other ∈ db.jobs, other.video = job.video → other.task ∈ plan.tasks) ∧
      ∀ task ∈ plan.tasks, ∃ other ∈ db.jobs, other.video = job.video ∧ other.task = task := by
  obtain hnone | ⟨plan, hplan⟩ := h.planned job.video
  · exact absurd rfl (hnone job hjob)
  · refine ⟨plan, fun other hother hvideo => ?_, fun task htask => ?_⟩
    · rw [← hplan]
      exact mem_map_of_mem (mem_filter.mpr ⟨hother, decide_eq_true hvideo⟩)
    · rw [← hplan] at htask
      obtain ⟨other, hother, htask⟩ := mem_map.mp htask
      obtain ⟨hmem, hvideo⟩ := mem_filter.mp hother
      exact ⟨other, hmem, of_decide_eq_true hvideo, htask⟩

/-- The kinds of the rows that a publication depends on. -/
def Terminal (job : Job) : Prop :=
  job.kind = .thumbnail ∧ job.name = "thumbnail" ∨
    ∃ p ∈ PROFILES, job.kind = .encode ∧ job.profile = some p ∧ job.name = encodeName p

theorem Sound.terminal (h : Sound c db) {other : Job} (hjob : job ∈ db.jobs) (hkind : job.kind = .publish)
    (hother : other ∈ db.jobs) (hvideo : other.video = job.video) : other.name ∈ job.deps ↔
      other.kind = .encode ∨ other.kind = .thumbnail := by
  obtain ⟨plan, htasks, hrows⟩ := h.plan_of_mem hjob
  have hpublish := plan.publish_of_kind (htasks job hjob rfl) hkind
  have hdeps : job.deps = plan.terminals := congrArg Task.dependencies hpublish
  rw [hdeps, plan.mem_terminals]
  constructor
  · rintro ⟨task, htask, hterminal, hname⟩
    obtain ⟨row, hrow, hrowVideo, hrowTask⟩ := hrows task (plan.mem_tasks.mpr (.inl htask))
    have heq := h.eq_of_name hrow hother (hrowVideo.trans hvideo.symm) ((congrArg Task.name hrowTask).trans hname)
    rw [← heq]
    have hsame : row.kind = task.kind := congrArg Task.kind hrowTask
    rw [hsame]
    exact hterminal
  · intro hterminal
    obtain hinner | hlast := plan.mem_tasks.mp (htasks other hother hvideo)
    · exact ⟨other.task, hinner, hterminal, rfl⟩
    · have hlastKind : other.kind = .publish := congrArg Task.kind hlast
      rw [hlastKind] at hterminal
      obtain hterminal | hterminal := hterminal <;> cases hterminal

theorem Sound.terminal_of_kind (h : Sound c db) (hjob : job ∈ db.jobs)
    (hkind : job.kind = .encode ∨ job.kind = .thumbnail) : Terminal job := by
  obtain ⟨plan, htasks, -⟩ := h.plan_of_mem hjob
  obtain hinner | hlast := plan.mem_tasks.mp (htasks job hjob rfl)
  · obtain htask | ⟨-, htask⟩ | ⟨-, htask⟩ | ⟨p, hp, htask⟩ := plan.mem_inner.mp hinner
    · have hinspect : job.kind = .inspect := congrArg Task.kind htask
      rw [hinspect] at hkind
      obtain hkind | hkind := hkind <;> cases hkind
    · have hpreprocess : job.kind = .preprocess := congrArg Task.kind htask
      rw [hpreprocess] at hkind
      obtain hkind | hkind := hkind <;> cases hkind
    · exact .inl ⟨congrArg Task.kind htask, congrArg Task.name htask⟩
    · exact .inr ⟨p, plan.supported p hp, congrArg Task.kind htask, congrArg Task.profile htask, congrArg Task.name htask⟩
  · have hpublish : job.kind = .publish := congrArg Task.kind hlast
    rw [hpublish] at hkind
    obtain hkind | hkind := hkind <;> cases hkind

/-- A publication that is done was the last row of its video. -/
theorem Sound.all_done (h : Sound c db) (hjob : job ∈ db.jobs) (hkind : job.kind = .publish)
    (hdone : job.state = .done) : ∀ other ∈ db.jobs, other.video = job.video → other.state = .done := by
  obtain ⟨plan, htasks, hrows⟩ := h.plan_of_mem hjob
  have hpublish : job.name = "publish" := congrArg Task.name (plan.publish_of_kind (htasks job hjob rfl) hkind)
  have hall := plan.all_of_publish
    (fun name => ∃ row ∈ db.jobs, row.video = job.video ∧ row.name = name ∧ row.state = .done)
    ⟨job, hjob, rfl, hpublish, hdone⟩ (by
      rintro task htask ⟨row, hrow, hvideo, hname, hrowDone⟩ dep hdep
      obtain ⟨same, hsame, hsameVideo, hsameTask⟩ := hrows task htask
      have heq := h.eq_of_name hsame hrow (hsameVideo.trans hvideo.symm)
        ((congrArg Task.name hsameTask : same.name = task.name).trans hname.symm)
      rw [heq] at hsameTask
      have hdeps : row.deps = task.dependencies := congrArg Task.dependencies hsameTask
      obtain ⟨other, hfeeds, hotherName⟩ := depsDone_iff.mp ((h.fine row hrow).deps (.inr hrowDone)) dep (hdeps ▸ hdep)
      exact ⟨other, hfeeds.mem, hfeeds.video.trans hvideo, hotherName, hfeeds.state⟩)
  intro other hother hvideo
  obtain ⟨row, hrow, hrowVideo, hname, hrowDone⟩ := hall other.task (htasks other hother hvideo)
  rw [h.eq_of_name hother hrow (hvideo.trans hrowVideo.symm) hname.symm]
  exact hrowDone

/-! ### Outputs -/

theorem get?_output {output : Option Output} {key : String} : Output.get? output name = some key ↔
    ∃ assets, output = some (.assets assets) ∧ assets.get? name = some key := by
  unfold Output.get?
  split
  · rename_i assets
    exact ⟨fun h => ⟨assets, rfl, h⟩, fun ⟨_, heq, h⟩ => by cases heq; exact h⟩
  · rename_i hnot
    exact ⟨nofun, fun ⟨assets, heq, _⟩ => absurd heq (hnot assets)⟩

/-- An asset of a terminal row is named after it. -/
theorem Sound.named_after (h : Sound c db) (hjob : job ∈ db.jobs) (hdone : job.state = .done)
    (hname : (Output.get? job.output name).isSome = true) (hterminal : Terminal job) :
    name = "thumbnail.png" ∧ job.name = "thumbnail" ∨
      ∃ p ∈ PROFILES, root p <+: name.toList ∧ job.name = encodeName p := by
  obtain ⟨key, hkey⟩ := Option.isSome_iff_exists.mp hname
  obtain ⟨assets, hassets, hget⟩ := get?_output.mp hkey
  have hnotInspect : job.kind ≠ .inspect := by
    obtain ⟨hkind, -⟩ | ⟨p, -, hkind, -⟩ := hterminal <;> rw [hkind] <;> decide
  obtain ⟨assets', hassets', hvalid⟩ := (h.fine job hjob).output hdone hnotInspect
  rw [hassets] at hassets'
  cases hassets'
  have hmem : name ∈ assets.keys := Dict.mem_keys.mpr ⟨key, hget⟩
  obtain ⟨hkind, hjobName⟩ | ⟨p, hp, hkind, hprofile, hjobName⟩ := hterminal
  · exact .inl ⟨validateAssets_thumbnail hvalid hkind hmem, hjobName⟩
  · exact .inr ⟨p, hp, validateAssets_encode hvalid hkind hprofile hmem, hjobName⟩

theorem Sound.owner_unique (h : Sound c db) {job' : Job} (hjob : job ∈ db.jobs) (hjob' : job' ∈ db.jobs)
    (hvideo : job.video = job'.video) (hdone : job.state = .done) (hdone' : job'.state = .done)
    (hterminal : Terminal job) (hterminal' : Terminal job') (hname : (Output.get? job.output name).isSome = true)
    (hname' : (Output.get? job'.output name).isSome = true) : job = job' := by
  refine h.eq_of_name hjob hjob' hvideo ?_
  obtain ⟨rfl, hn⟩ | ⟨p, hp, hroot, hn⟩ := h.named_after hjob hdone hname hterminal
  · obtain ⟨-, hn'⟩ | ⟨q, hq, hroot', -⟩ := h.named_after hjob' hdone' hname' hterminal'
    · exact hn.trans hn'.symm
    · exact absurd hroot' (root_thumbnail q hq)
  · obtain ⟨rfl, -⟩ | ⟨q, hq, hroot', hn'⟩ := h.named_after hjob' hdone' hname' hterminal'
    · exact absurd hroot (root_thumbnail p hp)
    · rw [hn, hn', root_unique hp hq hroot hroot']

/-- The key and the master playlist are no assets of a terminal row. -/
theorem Sound.not_special (h : Sound c db) (hjob : job ∈ db.jobs) (hdone : job.state = .done)
    (hterminal : Terminal job) (hname : (Output.get? job.output name).isSome = true) :
    name ≠ "key.bin" ∧ name ≠ "master.m3u8" := by
  obtain ⟨rfl, -⟩ | ⟨p, hp, hroot, -⟩ := h.named_after hjob hdone hname hterminal
  · decide
  · exact ⟨fun heq => (root_special p hp).1 (heq ▸ hroot), fun heq => (root_special p hp).2 (heq ▸ hroot)⟩

/-! ### What a publication is compared with -/

/-- `expected.update(…)`. -/
def collect (expected : Assets) (other : Job) : Assets :=
  match other.output with
  | some (.assets assets) => assets.entries.foldl (fun d entry => d.set entry.1 entry.2) expected
  | _ => expected

theorem get?_collect (expected : Assets) (other : Job) (name : String) :
    (collect expected other).get? name = (Output.get? other.output name).or (expected.get? name) := by
  unfold collect Output.get?
  rcases other.output with _ | (assets | text)
  · rfl
  · dsimp only
    rw [get?_foldl_set assets.entries assets.nodup (fun _ key => key)]
    change _ = (assets.entries.lookup name).or _
    cases assets.entries.lookup name <;> rfl
  · rfl

theorem get?_collectAll (name : String) : ∀ (rows : List Job) (expected : Assets),
    (∀ row ∈ rows, ∀ row' ∈ rows, (Output.get? row.output name).isSome = true →
      (Output.get? row'.output name).isSome = true → row = row') →
    (∀ row ∈ rows, ∀ key, Output.get? row.output name = some key → (rows.foldl collect expected).get? name = some key) ∧
    ((∀ row ∈ rows, Output.get? row.output name = none) → (rows.foldl collect expected).get? name = expected.get? name) := by
  intro rows
  induction rows with
  | nil => exact fun _ _ => ⟨fun row hrow => absurd hrow not_mem_nil, fun _ => rfl⟩
  | cons first rows ih =>
    intro expected hunique
    obtain ⟨hsome, hnone⟩ := ih (collect expected first) fun row hrow row' hrow' =>
      hunique row (mem_cons_of_mem _ hrow) row' (mem_cons_of_mem _ hrow')
    refine ⟨fun row hrow key hkey => ?_, fun hall => ?_⟩
    · rw [foldl_cons]
      by_cases hlater : ∃ later ∈ rows, (Output.get? later.output name).isSome = true
      · obtain ⟨later, hlater, hissome⟩ := hlater
        have heq := hunique row hrow later (mem_cons_of_mem _ hlater) (Option.isSome_iff_exists.mpr ⟨key, hkey⟩) hissome
        exact hsome row (heq ▸ hlater) key hkey
      · have hallNone : ∀ row ∈ rows, Output.get? row.output name = none := by
          intro later hmem
          by_contra hne
          exact hlater ⟨later, hmem, Option.isSome_iff_ne_none.mpr hne⟩
        rw [hnone hallNone, get?_collect]
        obtain rfl | hrow := mem_cons.mp hrow
        · rw [hkey]
          rfl
        · cases (hallNone row hrow).symm.trans hkey
    · rw [foldl_cons, hnone fun row hrow => hall row (mem_cons_of_mem _ hrow), get?_collect, hall first mem_cons_self]
      rfl

theorem expected_eq (job : Job) (db : Db) : db.expected job = (db.jobs.filter fun other =>
  other.video = job.video && other.state = .done && job.deps.contains other.name).foldl collect .empty := rfl

theorem mem_expected {other : Job} : (other ∈ db.jobs.filter fun other =>
  other.video = job.video && other.state = .done && job.deps.contains other.name) ↔ db.Feeds job other := by
  rw [mem_filter, Bool.and_eq_true, Bool.and_eq_true, decide_eq_true_eq, decide_eq_true_eq, contains_iff_mem]
  exact ⟨fun ⟨hmem, ⟨hvideo, hdone⟩, hname⟩ => ⟨hmem, hvideo, hdone, hname⟩,
    fun h => ⟨h.mem, ⟨h.video, h.state⟩, h.name⟩⟩

theorem Sound.feeds_terminal (h : Sound c db) {other : Job} (hjob : job ∈ db.jobs) (hkind : job.kind = .publish)
    (hfeeds : db.Feeds job other) : Terminal other :=
  h.terminal_of_kind hfeeds.mem ((h.terminal hjob hkind hfeeds.mem hfeeds.video).mp hfeeds.name)

theorem Sound.published_of_valid (h : Sound c db) (hjob : job ∈ db.jobs) (hkind : job.kind = .publish)
    {assets : Assets} (hvalid : db.validatePublication job assets = true) : db.Published job assets := by
  unfold validatePublication at hvalid
  dsimp only at hvalid
  rw [Bool.and_eq_true, Bool.and_eq_true, Bool.and_eq_true, Bool.and_eq_true, all_eq_true, all_eq_true,
    all_eq_true] at hvalid
  obtain ⟨⟨⟨⟨hnames, -⟩, hkey⟩, hmaster⟩, hsame⟩ := hvalid
  have hcollect : ∀ name, (∀ other, db.Feeds job other → ∀ key, Output.get? other.output name = some key →
      (db.expected job).get? name = some key) ∧
      ((∀ other, db.Feeds job other → Output.get? other.output name = none) → (db.expected job).get? name = none) := by
    intro name
    rw [expected_eq]
    obtain ⟨hsome, hnone⟩ := get?_collectAll name (db.jobs.filter fun other =>
      other.video = job.video && other.state = .done && job.deps.contains other.name) .empty (by
        intro row hrow row' hrow' hissome hissome'
        have hfeeds := mem_expected.mp hrow
        have hfeeds' := mem_expected.mp hrow'
        exact h.owner_unique hfeeds.mem hfeeds'.mem (hfeeds.video.trans hfeeds'.video.symm) hfeeds.state hfeeds'.state
          (h.feeds_terminal hjob hkind hfeeds) (h.feeds_terminal hjob hkind hfeeds') hissome hissome')
    exact ⟨fun other hfeeds => hsome other (mem_expected.mpr hfeeds),
      fun hall => hnone fun row hrow => hall row (mem_expected.mp hrow)⟩
  refine ⟨hkey, hmaster, fun name hname => ?_, fun other hfeeds name key hget => ?_⟩
  · obtain ⟨key, hget⟩ := Dict.contains_iff.mp hname
    have hcase := hnames name (Dict.mem_keys.mpr ⟨key, hget⟩)
    rw [Bool.or_eq_true, Bool.or_eq_true, decide_eq_true_eq, decide_eq_true_eq] at hcase
    obtain (hcontains | hspecial) | hspecial := hcase
    · right; right
      by_contra hnone
      rw [Dict.contains, (hcollect name).2 fun other hfeeds => by
        by_contra hne
        exact hnone ⟨other, hfeeds, Option.isSome_iff_ne_none.mpr hne⟩] at hcontains
      cases hcontains
    · exact .inl hspecial
    · exact .inr (.inl hspecial)
  · have hexpected := (hcollect name).1 other hfeeds key hget
    exact of_decide_eq_true (hsame (name, key) (mem_entries.mpr hexpected))

/-! ### Completion -/

/-- What holds of an output that `complete` takes. -/
structure Checked (db : Db) (job : Job) (output : Output) : Prop where
  valid : job.kind ≠ .inspect → ∃ assets, output = .assets assets ∧ validateAssets job assets.keys = true
  published : job.kind = .publish → ∃ assets, output = .assets assets ∧ db.Published job assets

variable {output : Output} {isFile : String → Bool}

theorem Sound.checked (h : Sound c db) (hjob : job ∈ db.jobs) {u : Unit}
    (hcheck : db.checkOutput job output isFile = .ok u) : db.Checked job output := by
  unfold checkOutput at hcheck
  split at hcheck
  · rename_i hinspect
    exact ⟨fun hkind => absurd hinspect hkind, fun hkind => by rw [hinspect] at hkind; cases hkind⟩
  · split at hcheck
    · cases hcheck
    · rename_i assets
      replace hcheck := of_check hcheck
      obtain ⟨_, hvalid, hcheck⟩ := of_bind hcheck
      have hpublished := of_check hcheck
      rw [require_eq_ok] at hvalid hpublished
      exact ⟨fun _ => ⟨assets, rfl, hvalid⟩,
        fun hkind => ⟨assets, rfl, h.published_of_valid hjob hkind (hpublished hkind)⟩⟩

theorem Sound.publish_unique (h : Sound c db) {job' : Job} (hjob : job ∈ db.jobs) (hjob' : job' ∈ db.jobs)
    (hvideo : job.video = job'.video) (hkind : job.kind = .publish) (hkind' : job'.kind = .publish) : job = job' := by
  obtain ⟨plan, htasks, -⟩ := h.plan_of_mem hjob
  have htask := plan.publish_of_kind (htasks job hjob rfl) hkind
  have htask' := plan.publish_of_kind (htasks job' hjob' hvideo.symm) hkind'
  exact h.eq_of_name hjob hjob' hvideo (congrArg Task.name (htask.trans htask'.symm))

def finished (job : Job) (output : Output) (db : Db) : Db :=
  db.updateJobs (fun other => other.id = job.id) fun other => { other with state := .done, output := some output }

theorem finishJob_cases (h : db.finishJob job output = .ok db') : (job.kind ≠ .publish ∧ db' = db.finished job output) ∨
      ∃ assets, job.kind = .publish ∧ output = .assets assets ∧
        db' = (db.finished job output).addCompletion job.video assets := by
  unfold finishJob at h
  dsimp only at h
  split at h
  · rename_i hkind
    split at h
    · cases h
    · rename_i assets
      have heq := of_check h
      cases heq
      exact .inr ⟨assets, hkind, rfl, rfl⟩
  · rename_i hkind
    cases h
    exact .inl ⟨hkind, rfl⟩

theorem finished_same (output : Output) :
    Same fun other : Job => { other with state := .done, output := some output } :=
  ⟨fun _ => rfl, fun _ => rfl, fun _ => rfl⟩

theorem Sound.finished_keeps (h : Sound c db) (hjob : job ∈ db.jobs) (hrunning : job.state = .running) :
    ∀ other ∈ db.jobs, decide (other.id = job.id) = true → other.state ≠ .done := by
  intro other hother hid hdone
  rw [(h.named hjob hrunning other hother hid).2] at hdone
  cases hdone

/-- The row that is done, but for what a publication leaves in the outbox. -/
theorem Sound.finished_fine (h : Sound c db) (hjob : job ∈ db.jobs) (hrunning : job.state = .running)
    (hchecked : db.Checked job output) {db' : Db} (hjobs : db'.jobs = (db.finished job output).jobs)
    (hlimits : db'.jobLimits = db.jobLimits)
    (houtbox : job.kind = .publish → ∃ completion, db'.completions.get? job.video = some completion ∧
      output = .assets completion.assets) : db'.Fine { job with state := .done, output := some output } := by
  have hfine := h.fine job hjob
  have hkeeps := Keeps.update (finished_same output) (h.finished_keeps hjob hrunning)
  have hdeps := depsDone_map hkeeps (hfine.deps (.inl hrunning))
  rw [if_pos (decide_eq_true rfl)] at hdeps
  refine ⟨fun hactive => ?_, fun _ => ?_, fun hnone => ?_, fun limit hlimit => ?_, fun _ hkind => ?_, fun _ hkind => ?_⟩
  · obtain hactive | hactive := hactive <;> cases hactive
  · rw [depsDone_iff] at hdeps ⊢
    intro dep hdep
    obtain ⟨other, hfeeds, hname⟩ := hdeps dep hdep
    exact ⟨other, hfeeds.frame hjobs, hname⟩
  · rw [hlimits] at hnone
    obtain ⟨-, hcase | hcase⟩ := hfine.unlimited hnone <;> rw [hrunning] at hcase <;> cases hcase
  · rw [hlimits] at hlimit
    exact ⟨(hfine.limited limit hlimit).1, nofun⟩
  · obtain ⟨assets, rfl, hvalid⟩ := hchecked.valid hkind
    exact ⟨assets, rfl, hvalid⟩
  · obtain ⟨completion, hcompletion, rfl⟩ := houtbox hkind
    obtain ⟨assets, heq, hpublished⟩ := hchecked.published hkind
    cases heq
    have hmapped := hpublished.map h hkeeps (hfine.deps (.inl hrunning))
    rw [if_pos (decide_eq_true rfl)] at hmapped
    exact ⟨completion, hcompletion, rfl, hmapped.frame hjobs⟩

theorem finishJob_sound (h : Sound c db) (hjob : job ∈ db.jobs) (hrunning : job.state = .running)
    (hchecked : db.Checked job output) (hfinish : db.finishJob job output = .ok db') :
    Sound c db' ∧ db.Quiet db' ∧ ∃ job' ∈ db'.jobs, job'.id = job.id ∧ job'.state = .done := by
  have hdone := h.finished_keeps hjob hrunning
  have hkeeps := Keeps.update (finished_same output) hdone
  have hquiet : db.Quiet (db.finished job output) := update_quiet (finished_same output) hdone fun _ => rfl
  have hmem : ({ job with state := .done, output := some output } : Job) ∈ (db.finished job output).jobs := by
    refine mem_map.mpr ⟨job, hjob, ?_⟩
    rw [if_pos (decide_eq_true rfl)]
  obtain ⟨hkind, rfl⟩ | ⟨assets, hkind, rfl, rfl⟩ := finishJob_cases hfinish
  · refine ⟨update_sound h (finished_same output) hdone fun other hother hid => ?_, hquiet, _, hmem, rfl, rfl⟩
    obtain ⟨rfl, -⟩ := h.named hjob hrunning other hother hid
    exact h.finished_fine hother hrunning hchecked rfl rfl fun hpublish => absurd hpublish hkind
  · have hnone : db.completions.get? job.video = none := by
      cases hget : db.completions.get? job.video with
      | none => rfl
      | some completion =>
        obtain ⟨other, hother, hvideo, hpublish, hover⟩ := h.completed job.video completion hget
        rw [h.publish_unique hother hjob hvideo hpublish hkind, hrunning] at hover
        cases hover
    have hadd : (db.finished job (.assets assets)).addCompletion job.video assets =
        (db.finished job (.assets assets)).setCompletions (db.completions.set job.video ⟨assets, false⟩) := by
      have hsame : (db.finished job (.assets assets)).completions = db.completions := rfl
      rw [addCompletion, hsame, hnone]
      rfl
    rw [hadd]
    refine ⟨h.mapWith hkeeps (fun id completion hget => ?_) (fun id completion hget hold => ?_) fun other hother hchanged => ?_,
      ⟨⟨hquiet.videos, hquiet.jobs, hquiet.limits⟩, hquiet.attempts, hquiet.sameLimits⟩, _, hmem, rfl, rfl⟩
    · rw [get?_set_of_ne]
      · exact hget
      · rintro rfl
        cases hget.symm.trans hnone
    · obtain ⟨rfl, -⟩ | ⟨-, hget⟩ := get?_set_cases hget
      · exact ⟨_, hmem, rfl, hkind, rfl⟩
      · cases hget.symm.trans hold
    · by_cases hid : decide (other.id = job.id) = true
      · rw [if_pos hid]
        obtain ⟨rfl, -⟩ := h.named hjob hrunning other hother hid
        exact h.finished_fine hother hrunning hchecked rfl rfl fun _ => ⟨_, get?_set_self _ _ _, rfl⟩
      · rw [if_neg hid] at hchanged
        exact absurd rfl hchanged

theorem complete_sound (h : Sound c db) {now later : ℚ} {held : Lease} {completed : Bool}
    (hcomplete : db.complete now later held output isFile = .ok (completed, db')) :
    Sound c db' ∧ db.Quiet db' ∧ (completed = true → (∃ job ∈ db.jobs, job.id = held.job ∧ job.state = .running ∧
      job.lease = some held.lease ∧ later < job.expires) ∧ ∃ job' ∈ db'.jobs, job'.id = held.job ∧ job'.state = .done) := by
  unfold complete at hcomplete
  split at hcomplete
  · cases hcomplete
    exact ⟨h, .refl db, nofun⟩
  · rename_i first hfirst
    obtain ⟨_, hcheck, hcomplete⟩ := of_bind hcomplete
    split at hcomplete
    · cases hcomplete
      exact ⟨h, .refl db, nofun⟩
    · rename_i job hcurrent
      obtain ⟨done, hfinish, heq⟩ := of_bind hcomplete
      cases heq
      obtain ⟨hfirstJob, hfirstId, -⟩ := current_eq_some hfirst
      obtain ⟨hjob, hid, hrunning, hlease, hexpires⟩ := current_eq_some hcurrent
      cases h.eq_of_id hfirstJob hjob (hfirstId.trans hid.symm)
      obtain ⟨hsound, hquiet, job', hjob', hid', hdone'⟩ := finishJob_sound h hjob hrunning (h.checked hjob hcheck) hfinish
      exact ⟨hsound, hquiet, fun _ => ⟨⟨_, hjob, hid, hrunning, hlease, hexpires⟩, job', hjob', hid'.trans hid, hdone'⟩⟩

/-! ### The outbox -/

theorem Sound.setHandled (h : Sound c db) {id : String} {completion : Completion}
    (hget : db.completions.get? id = some completion) :
    Sound c (db.setCompletions (db.completions.set id { completion with handled := true })) := by
  have hforward : ∀ id' old, db.completions.get? id' = some old →
      ∃ new, (db.completions.set id { completion with handled := true }).get? id' = some new ∧ new.assets = old.assets := by
    intro id' old hold
    rw [get?_set]
    split
    · rename_i hsame
      rw [hsame] at hold
      cases hget.symm.trans hold
      exact ⟨_, rfl, rfl⟩
    · exact ⟨old, hold, rfl⟩
  refine ⟨h.ids, h.names, h.drawnJobs, h.drawnVideos, h.drawnLimits, h.planned, h.waiting, fun job hjob => ?_,
    fun id' new hnew => ?_, fun id' value hvalue hready => ?_⟩
  · obtain ⟨hactive, hdeps, hunlimited, hlimited, houtput, hpublished⟩ := h.fine job hjob
    refine ⟨hactive, hdeps, hunlimited, hlimited, houtput, fun hdone hkind => ?_⟩
    obtain ⟨old, hold, houtputs, hassets⟩ := hpublished hdone hkind
    obtain ⟨new, hnew, hsame⟩ := hforward _ old hold
    refine ⟨new, hnew, ?_, ?_⟩
    · rw [hsame]
      exact houtputs
    · rw [hsame]
      exact hassets.frame rfl
  · obtain ⟨rfl, -⟩ | ⟨-, hold⟩ := get?_set_cases hnew
    · exact h.completed _ completion hget
    · exact h.completed id' new hold
  · obtain ⟨old, hold, hassets⟩ := h.ready id' value hvalue hready
    obtain ⟨new, hnew, hsame⟩ := hforward id' old hold
    exact ⟨new, hnew, hassets.trans hsame.symm⟩

theorem Quiet.setCompletions (completions : Dict String Completion) : db.Quiet (db.setCompletions completions) :=
  ⟨⟨(Moves.refl db).videos, (Moves.refl db).jobs, (Moves.refl db).limits⟩, (Quiet.refl db).attempts, rfl⟩

theorem handleCompletion_sound (h : Sound c db) {row : String × Assets}
    (hhandle : db.handleCompletion row isFile = .ok db') : Sound c db' ∧ db.Quiet db' := by
  unfold handleCompletion at hhandle
  split at hhandle
  · cases hhandle
    exact ⟨h, .refl db⟩
  · rename_i completion hcompletion
    split at hhandle
    · cases hhandle
      exact ⟨h, .refl db⟩
    · rename_i hpending
      rw [not_or, not_not] at hpending
      have hassets : completion.assets = row.2 := by
        have hentries := hpending.2
        cases hcopy : completion.assets
        cases hrow : row.2
        rw [hcopy, hrow] at hentries
        cases hentries
        rfl
      obtain ⟨value, hvideo, hhandle⟩ := of_bind hhandle
      have hget := video_eq_ok.mp hvideo
      have hsound := h.setHandled hcompletion
      have hquiet : db.Quiet (db.setCompletions (db.completions.set row.1 { completion with handled := true })) :=
        .setCompletions _
      dsimp only at hhandle
      split at hhandle
      · rename_i hprocessing
        split at hhandle
        · cases hhandle
          obtain ⟨job, hjob, hjobVideo, hkind, hdone⟩ := h.completed row.1 completion hcompletion
          have hfollows : Follows value { value with state := .ready, assets := row.2 } := by
            refine ⟨?_, fun hover => ?_⟩
            · rw [hprocessing]
              change VideoState.ready ∈ VideoState.processing.reaches
              decide
            · rw [hprocessing] at hover
              obtain hover | hover := hover <;> cases hover
          refine ⟨hsound.setVideo hget ⟨fun other hother hvideo hactive => ?_, ?_, fun _ => ?_⟩,
            hquiet.trans (.setVideo hget hfollows)⟩
          · rw [h.all_done hjob hkind hdone other hother (hvideo.trans hjobVideo.symm)] at hactive
            obtain hactive | hactive := hactive <;> cases hactive
          · intro hcase
            obtain hcase | hcase := hcase <;> cases hcase
          · exact ⟨_, get?_set_self _ _ _, hassets.symm⟩
        · cases hhandle
          exact ⟨h, .refl db⟩
      · cases hhandle
        exact ⟨hsound, hquiet⟩

end Db

end SystemDesign.VideoStreaming
