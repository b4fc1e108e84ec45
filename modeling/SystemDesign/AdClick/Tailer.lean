import SystemDesign.AdClick.Log
import SystemDesign.Lib.Transitions

/-!
The log tailer (`tailer.py`, `checkpoints.py`).

The source is a growing byte string. A run of the tailer is a sequence of steps: it
verifies the consumed prefix, reads lines into a batch, sends the batch, and stores the
new checkpoint once the batch is acknowledged. A crash loses the run and keeps the
checkpoint. Each read sees some prefix of the source, as long as the reader's buffer or
the file happens to be. The checkpoint file is replaced at once.

A request that is executed with its reply lost, late or twice is an `append` by
somebody followed by a crash of the tailer, and anybody may append anything.
-/

namespace SystemDesign.AdClick

open List

/-! ### Lines -/

def newline : UInt8 := 10

/-- The bytes up to and with the first newline, or all of them. -/
def firstLine : List UInt8 → List UInt8
  | [] => []
  | b :: rest => if b = newline then [b] else b :: firstLine rest

/-- `stream.readline(limit)` on the bytes ahead. -/
def readline (bytes : List UInt8) (limit : ℕ) : List UInt8 := (firstLine bytes).take limit

/-- The complete lines of a byte string; `partialLine` is what was read of the first. -/
def completeLines (partialLine : List UInt8) : List UInt8 → List (List UInt8)
  | [] => []
  | b :: rest =>
    if b = newline then (partialLine ++ [b]) :: completeLines [] rest
    else completeLines (partialLine ++ [b]) rest

/-! ### The tailer -/

structure Checkpoint where
  offset : ℕ
  digest : String
  lineage : Option String

def isHexDigest (text : String) : Bool :=
  text.length = 64 && text.toList.all fun c => ('0' ≤ c && c ≤ '9') || ('a' ≤ c && c ≤ 'f')

/-- `read_checkpoint`, on the file's fields. -/
def readCheckpoint : Option Checkpoint → Except Error Checkpoint
  | none => .ok ⟨0, hexdigest [], none⟩
  | some body => do
    require (body.offset ≤ maxPosition) (.valueError "invalid checkpoint offset")
    require (isHexDigest body.digest = true) (.valueError "invalid checkpoint hash")
    require (body.lineage.all isText = true) (.valueError "invalid lineage")
    return body

/-- A run of `_ingest` between two of its steps: where the current batch starts, the bytes
hashed up to there, the batch and its bytes, and how many batches may still follow. -/
structure Ingest where
  offset : ℕ
  lineage : Option String
  hashed : List UInt8
  batch : List Json
  taken : List UInt8
  batches : ℕ

def Ingest.finish (run : Ingest) : ℕ := run.offset + run.taken.length

inductive Phase where
  | idle
  | reading (run : Ingest)
  | waiting (run : Ingest)
  | acknowledged (run : Ingest) (lineage : String)

variable (e : Settings)

/-- The run up to the loop; `visible` are the bytes the reader sees. -/
def begin (checkpoint : Option Checkpoint) (visible : List UInt8) (maxBatches : ℕ) :
    Except Error Ingest := do
  require (1 ≤ maxBatches ∧ maxBatches ≤ 10000) (.valueError "max_batches must be an integer in [1,10000]")
  let old ← readCheckpoint checkpoint
  require (old.offset ≤ visible.length) (.http 409 "source truncated; choose a new checkpoint")
  require (hexdigest (visible.take old.offset) = old.digest)
    (.http 409 "source prefix changed; choose a new checkpoint")
  return ⟨old.offset, old.lineage, visible.take old.offset, [], [], maxBatches⟩

/-- The batch is complete: the run ends if it is empty, and is sent otherwise. -/
def close (run : Ingest) : Phase := if run.batch = [] then .idle else .waiting run

/-- One round of the inner loop; an exception ends the run. -/
def readOne (run : Ingest) (visible : List UInt8) : Phase :=
  let line := readline (visible.drop run.finish) 8193
  if line = [] then close run
  else if 8192 < line.length then .idle
  else if line.getLast? ≠ some newline then close run
  else match strictJson e line with
    | .error _ => .idle
    | .ok value =>
      let run := { run with batch := run.batch ++ [value], taken := run.taken ++ line }
      if run.batch.length < 200 then .reading run else .waiting run

/-- `_acknowledged`. -/
def acknowledge (lineage : String) (receipts : List LogReceipt) (count : ℕ)
    (expected : Option String) : Except Error String := do
  require (isText lineage = true) (.valueError "lineage must contain 1..128 printable characters")
  require (expected.all (· = lineage)) (.http 409 "ingress lineage changed; choose a new checkpoint")
  require (receipts.length = count) (.http 503 "incomplete ingress acknowledgement")
  require (receipts.all fun r => r.partition ≤ 63 && 1 ≤ r.seq && decide (r.seq ≤ maxPosition))
    (.valueError "invalid ingress receipt")
  return lineage

/-- What `write_checkpoint` stores. -/
def Ingest.checkpoint (run : Ingest) (lineage : String) : Checkpoint :=
  ⟨run.finish, hexdigest (run.hashed ++ run.taken), some lineage⟩

/-- The run after its checkpoint is stored: `stream.seek(offset)` and the next batch. -/
def Ingest.next (run : Ingest) (lineage : String) : Phase :=
  if run.batches ≤ 1 then .idle
  else .reading ⟨run.finish, some lineage, run.hashed ++ run.taken, [], [], run.batches - 1⟩

/-! ### The system -/

structure World (τ : Type) where
  source : List UInt8
  checkpoint : Option Checkpoint
  log : EventLog τ
  phase : Phase

variable {τ : Type} (clock : Clock τ)

/-- The log after a call of `append`, accepted or not. -/
def appended (now : τ) (bodies : List Json) (log : EventLog τ) : EventLog τ :=
  (transaction log (EventLog.append e clock now bodies)).1

inductive Step : World τ → World τ → Prop
  | grow (w : World τ) (bytes : List UInt8) : Step w { w with source := w.source ++ bytes }
  | append (w : World τ) (now : τ) (bodies : List Json) :
      Step w { w with log := appended e clock now bodies w.log }
  | crash (w : World τ) : Step w { w with phase := .idle }
  | start (w : World τ) (visible : ℕ) (maxBatches : ℕ) (run : Ingest) : w.phase = .idle →
      begin w.checkpoint (w.source.take visible) maxBatches = .ok run →
      Step w { w with phase := .reading run }
  | read (w : World τ) (visible : ℕ) (run : Ingest) : w.phase = .reading run →
      Step w { w with phase := readOne e run (w.source.take visible) }
  | reply (w : World τ) (now : τ) (run : Ingest) (log : EventLog τ) (receipts : List LogReceipt)
      (lineage : String) : w.phase = .waiting run →
      w.log.append e clock now run.batch = .ok (log, receipts) →
      acknowledge w.log.lineage receipts run.batch.length run.lineage = .ok lineage →
      Step w { w with log := log, phase := .acknowledged run lineage }
  | store (w : World τ) (run : Ingest) (lineage : String) : w.phase = .acknowledged run lineage →
      Step w { w with checkpoint := some (run.checkpoint lineage), phase := run.next lineage }

/-- Any source, no checkpoint yet, any log. -/
def tailing : Transitions (World τ) where
  start w := w.checkpoint = none ∧ w.phase = .idle
  step := Step e clock

/-! ### Complete lines -/

def IsLine (line : List UInt8) : Prop := ∃ body, newline ∉ body ∧ line = body ++ [newline]

theorem firstLine_spec (bytes : List UInt8) :
    ∃ body, newline ∉ body ∧ (firstLine bytes = body ∨ firstLine bytes = body ++ [newline]) := by
  induction bytes with
  | nil => exact ⟨[], by simp, .inl rfl⟩
  | cons b rest ih =>
    by_cases hb : b = newline
    · exact ⟨[], by simp, .inr (by simp [firstLine, hb])⟩
    · obtain ⟨body, hbody, hline⟩ := ih
      refine ⟨b :: body, by simp [hbody, Ne.symm hb], ?_⟩
      simp only [firstLine, hb, if_false, cons_append]
      exact hline.imp (congrArg _) (congrArg _)

theorem firstLine_isPrefix (bytes : List UInt8) : firstLine bytes <+: bytes := by
  induction bytes with
  | nil => exact prefix_rfl
  | cons b rest ih =>
    by_cases hb : b = newline
    · simp [firstLine, hb]
    · simpa [firstLine, hb] using ih

variable {bytes : List UInt8}

/-- A read that ends in a newline is a complete line. -/
theorem readline_isLine {limit : ℕ} (h : (readline bytes limit).getLast? = some newline) :
    IsLine (readline bytes limit) := by
  obtain ⟨body, hbody, hline⟩ := firstLine_spec bytes
  have hin : ∀ {k}, (body.take k).getLast? ≠ some newline := fun hlast =>
    hbody (mem_of_mem_take (mem_of_getLast? hlast))
  unfold readline at h ⊢
  rcases hline with hline | hline
  · rw [hline] at h
    exact absurd h hin
  · rw [hline] at h ⊢
    by_cases hk : limit ≤ body.length
    · rw [take_append_of_le_length hk] at h
      exact absurd h hin
    · refine ⟨body, hbody, take_of_length_le ?_⟩
      simp
      omega

theorem completeLines_append {body : List UInt8} (hbody : newline ∉ body) (partialLine rest : List UInt8) :
    completeLines partialLine (body ++ newline :: rest) =
      (partialLine ++ body ++ [newline]) :: completeLines [] rest := by
  induction body generalizing partialLine with
  | nil => simp [completeLines]
  | cons b body ih =>
    obtain ⟨hb, hrest⟩ := not_or.mp (mem_cons.not.mp hbody)
    rw [cons_append, completeLines, if_neg (Ne.symm hb), ih hrest]
    simp

theorem completeLines_flatten {lines : List (List UInt8)} (h : ∀ line ∈ lines, IsLine line) (rest : List UInt8) :
    completeLines [] (lines.flatten ++ rest) = lines ++ completeLines [] rest := by
  induction lines with
  | nil => rfl
  | cons line lines ih =>
    obtain ⟨body, hbody, rfl⟩ := h line mem_cons_self
    rw [flatten_cons, append_assoc, append_assoc, singleton_append,
      completeLines_append hbody, ih fun l hl => h l (mem_cons_of_mem _ hl)]
    rfl

/-! ### The invariant -/

/-- The line is a valid record that the log holds. -/
def Delivered (log : EventLog τ) (line : List UInt8) : Prop :=
  ∃ body value, strictJson e line = .ok body ∧ normalizeEvent e body = .ok value ∧ log.Holds value

/-- The bytes are complete lines, all of them delivered. -/
def Covered (log : EventLog τ) (bytes : List UInt8) : Prop :=
  ∃ lines : List (List UInt8), bytes = lines.flatten ∧ ∀ line ∈ lines, IsLine line ∧ Delivered e log line

/-- The bytes are the lines of a batch. -/
def Batched (bytes : List UInt8) (batch : List Json) : Prop :=
  ∃ lines : List (List UInt8), bytes = lines.flatten ∧
    ∀ line ∈ lines, IsLine line ∧ ∃ body ∈ batch, strictJson e line = .ok body

/-- What holds of a run: the bytes behind it are the front of the source. -/
structure Consumed (w : World τ) (run : Ingest) : Prop where
  length : run.hashed.length = run.offset
  front : run.hashed ++ run.taken <+: w.source
  covered : Covered e w.log run.hashed
  batched : Batched e run.taken run.batch

def PhaseOk (w : World τ) : Phase → Prop
  | .idle => True
  | .reading run => Consumed e w run
  | .waiting run => Consumed e w run
  | .acknowledged run _ => Consumed e w run ∧ Covered e w.log run.taken

/-- The checkpoint is the end of delivered lines and has the hash of the bytes before it. -/
structure CheckpointOk (w : World τ) (c : Checkpoint) : Prop where
  offset : c.offset ≤ w.source.length
  digest : c.digest = hexdigest (w.source.take c.offset)
  covered : Covered e w.log (w.source.take c.offset)

structure Safe (w : World τ) : Prop where
  checkpoint : ∀ {c}, w.checkpoint = some c → CheckpointOk e w c
  phase : PhaseOk e w w.phase

variable {e}

variable {log : EventLog τ}

theorem Delivered.mono {log' : EventLog τ} {line : List UInt8} (h : Delivered e log line) (hext : log.Extends log') :
    Delivered e log' line := by
  obtain ⟨body, value, hbody, hvalue, hholds⟩ := h
  exact ⟨body, value, hbody, hvalue, hholds.mono hext⟩

theorem Covered.mono {log' : EventLog τ} {bytes : List UInt8} (h : Covered e log bytes) (hext : log.Extends log') :
    Covered e log' bytes := by
  obtain ⟨lines, rfl, hlines⟩ := h
  exact ⟨lines, rfl, fun line hline => ⟨(hlines line hline).1, (hlines line hline).2.mono hext⟩⟩

theorem Covered.append {bytes' : List UInt8} (h : Covered e log bytes) (h' : Covered e log bytes') :
    Covered e log (bytes ++ bytes') := by
  obtain ⟨lines, rfl, hlines⟩ := h
  obtain ⟨lines', rfl, hlines'⟩ := h'
  refine ⟨lines ++ lines', flatten_append.symm, fun line hline => ?_⟩
  rcases mem_append.mp hline with hline | hline
  · exact hlines line hline
  · exact hlines' line hline

theorem covered_nil (log : EventLog τ) : Covered e log [] := ⟨[], rfl, fun line hline => by cases hline⟩

theorem batched_nil (batch : List Json) : Batched e [] batch := ⟨[], rfl, fun line hline => by cases hline⟩

theorem Batched.snoc {line : List UInt8} {batch : List Json} {body : Json} (h : Batched e bytes batch)
    (hline : IsLine line) (hbody : strictJson e line = .ok body) : Batched e (bytes ++ line) (batch ++ [body]) := by
  obtain ⟨lines, rfl, hlines⟩ := h
  refine ⟨lines ++ [line], by simp, fun l hl => ?_⟩
  rcases mem_append.mp hl with hl | hl
  · obtain ⟨hisLine, b, hb, hjson⟩ := hlines l hl
    exact ⟨hisLine, b, mem_append_left _ hb, hjson⟩
  · rw [mem_singleton.mp hl]
    exact ⟨hline, body, by simp, hbody⟩

/-- An accepted batch delivers its lines. -/
theorem Batched.covered {batch : List Json} (h : Batched e bytes batch)
    (hheld : ∀ body ∈ batch, ∃ value, normalizeEvent e body = .ok value ∧ log.Holds value) :
    Covered e log bytes := by
  obtain ⟨lines, rfl, hlines⟩ := h
  refine ⟨lines, rfl, fun line hline => ?_⟩
  obtain ⟨hisLine, body, hbody, hjson⟩ := hlines line hline
  obtain ⟨value, hvalue, hholds⟩ := hheld body hbody
  exact ⟨hisLine, body, value, hjson, hvalue, hholds⟩

variable {clock}

theorem appended_extends (now : τ) (bodies : List Json) (log : EventLog τ) :
    log.Extends (appended e clock now bodies log) := by
  rcases transaction_cases log (EventLog.append e clock now bodies) with
    ⟨log', receipts, hok, heq⟩ | ⟨err, _, heq⟩
  · rw [appended, heq]
    exact (append_spec e hok).1
  · rw [appended, heq]
    exact .refl log

variable {run : Ingest} {w : World τ}

variable {w' : World τ}

theorem Consumed.grow (h : Consumed e w run) (hsource : w.source <+: w'.source) (hlog : w.log.Extends w'.log) :
    Consumed e w' run :=
  ⟨h.length, h.front.trans hsource, h.covered.mono hlog, h.batched⟩

theorem PhaseOk.grow {w : World τ} {phase : Phase} (h : PhaseOk e w phase) (hsource : w.source <+: w'.source)
    (hlog : w.log.Extends w'.log) : PhaseOk e w' phase := by
  cases phase with
  | idle => exact trivial
  | reading run => exact Consumed.grow h hsource hlog
  | waiting run => exact Consumed.grow h hsource hlog
  | acknowledged run lineage => exact ⟨h.1.grow hsource hlog, h.2.mono hlog⟩

theorem CheckpointOk.grow {c : Checkpoint} (h : CheckpointOk e w c) (hsource : w.source <+: w'.source)
    (hlog : w.log.Extends w'.log) : CheckpointOk e w' c := by
  have htake : w'.source.take c.offset = w.source.take c.offset := by
    obtain ⟨rest, hrest⟩ := hsource
    rw [← hrest, take_append_of_le_length h.offset]
  constructor
  · exact h.offset.trans hsource.length_le
  · rw [htake]
    exact h.digest
  · rw [htake]
    exact h.covered.mono hlog

theorem Safe.grow {w : World τ} (h : Safe e w) (hsource : w.source <+: w'.source) (hlog : w.log.Extends w'.log)
    (hcheckpoint : w'.checkpoint = w.checkpoint) (hphase : PhaseOk e w' w'.phase) : Safe e w' := by
  refine ⟨?_, hphase⟩
  rw [hcheckpoint]
  exact fun hc => (h.checkpoint hc).grow hsource hlog

theorem begin_spec (h : Safe e w) {visible maxBatches : ℕ}
    (hrun : begin w.checkpoint (w.source.take visible) maxBatches = .ok run) : Consumed e w run := by
  replace hrun := of_check hrun
  obtain ⟨old, hold, hrun⟩ := of_bind hrun
  obtain ⟨_, hlength, hrun⟩ := of_bind hrun
  replace hrun := of_check hrun
  obtain rfl := Except.ok.inj hrun
  have hle : old.offset ≤ (w.source.take visible).length := require_eq_ok.mp hlength
  have hvisible : old.offset ≤ visible ∧ old.offset ≤ w.source.length := by
    rw [length_take] at hle
    exact ⟨hle.trans (min_le_left _ _), hle.trans (min_le_right _ _)⟩
  have htake : (w.source.take visible).take old.offset = w.source.take old.offset := by
    rw [take_take, min_eq_left hvisible.1]
  have hcovered : Covered e w.log (w.source.take old.offset) := by
    unfold readCheckpoint at hold
    split at hold
    · obtain rfl := Except.ok.inj hold
      exact covered_nil w.log
    · rename_i body hbody
      replace hold := of_check hold
      replace hold := of_check hold
      replace hold := of_check hold
      obtain rfl := Except.ok.inj hold
      exact (h.checkpoint hbody).covered
  refine ⟨?_, ?_, ?_, batched_nil _⟩
  · simp only [htake, length_take, min_eq_left hvisible.2]
  · simp only [htake, append_nil]
    exact take_prefix _ _
  · simp only [htake]
    exact hcovered

theorem close_ok (h : Consumed e w run) : PhaseOk e w (close run) := by
  unfold close
  split
  · exact trivial
  · exact h

/-- The line a run reads next follows what it has taken. -/
theorem readline_front (h : Consumed e w run) (visible limit : ℕ) :
    (run.hashed ++ run.taken) ++ readline ((w.source.take visible).drop run.finish) limit <+: w.source := by
  have hlength : (run.hashed ++ run.taken).length = run.finish := by
    rw [length_append, h.length, Ingest.finish]
  have hread : readline ((w.source.take visible).drop run.finish) limit <+: (w.source.take visible).drop run.finish :=
    (List.take_prefix _ _).trans (firstLine_isPrefix _)
  have hdrop : (w.source.take visible).drop run.finish <+: w.source.drop run.finish := by
    rw [drop_take]
    exact take_prefix _ _
  have hsource : w.source = (run.hashed ++ run.taken) ++ w.source.drop run.finish := by
    obtain ⟨rest, hrest⟩ := h.front
    rw [← hlength, ← hrest, drop_left]
  rw [hsource]
  exact (prefix_append_right_inj _).mpr (by rw [← hsource]; exact hread.trans hdrop)

theorem readOne_ok (h : Consumed e w run) (visible : ℕ) : PhaseOk e w (readOne e run (w.source.take visible)) := by
  unfold readOne
  dsimp only
  split
  · exact close_ok h
  · split
    · exact trivial
    · split
      · exact close_ok h
      · rename_i hline
        split
        · exact trivial
        · rename_i body hbody
          have hisLine := readline_isLine (not_not.mp hline)
          have hfront := readline_front h visible 8193
          have hrun : Consumed e w { run with
              batch := run.batch ++ [body],
              taken := run.taken ++ readline ((w.source.take visible).drop run.finish) 8193 } :=
            ⟨h.length, by rw [← append_assoc]; exact hfront, h.covered,
              h.batched.snoc hisLine hbody⟩
          split
          · exact hrun
          · exact hrun

theorem step_safe (h : Safe e w) (hstep : Step e clock w w') : Safe e w' := by
  cases hstep with
  | grow bytes =>
    have hsource : w.source <+: w.source ++ bytes := prefix_append _ _
    exact h.grow hsource (.refl _) rfl (h.phase.grow hsource (.refl _))
  | append now bodies =>
    have hext := @appended_extends e τ clock now bodies w.log
    exact h.grow prefix_rfl hext rfl (h.phase.grow prefix_rfl hext)
  | crash => exact h.grow prefix_rfl (.refl _) rfl trivial
  | start visible maxBatches run hidle hrun =>
    exact h.grow prefix_rfl (.refl _) rfl ((begin_spec h hrun).grow prefix_rfl (.refl _))
  | read visible run hphase =>
    have hrun : Consumed e w run := by simpa [hphase, PhaseOk] using h.phase
    exact h.grow prefix_rfl (.refl _) rfl ((readOne_ok hrun visible).grow prefix_rfl (.refl _))
  | reply now run log receipts lineage hphase happend hack =>
    have hrun : Consumed e w run := by simpa [hphase, PhaseOk] using h.phase
    obtain ⟨hext, hheld⟩ := append_spec e happend
    exact h.grow prefix_rfl hext rfl ⟨hrun.grow prefix_rfl hext, hrun.batched.covered hheld⟩
  | store run lineage hphase =>
    obtain ⟨hrun, htaken⟩ : Consumed e w run ∧ Covered e w.log run.taken := by
      simpa [hphase, PhaseOk] using h.phase
    have hlength : (run.hashed ++ run.taken).length = run.finish := by
      rw [length_append, hrun.length, Ingest.finish]
    have htake : w.source.take run.finish = run.hashed ++ run.taken := by
      obtain ⟨rest, hrest⟩ := hrun.front
      rw [← hlength, ← hrest, take_left]
    constructor
    · intro c hc
      obtain rfl := Option.some.inj hc
      constructor
      · have hle := hrun.front.length_le
        rw [hlength] at hle
        exact hle
      · exact congrArg hexdigest htake.symm
      · simp only [Ingest.checkpoint, htake]
        exact hrun.covered.append htaken
    · unfold Ingest.next
      dsimp only
      split
      · exact trivial
      · exact ⟨hlength, by simpa using hrun.front, hrun.covered.append htaken, batched_nil _⟩

theorem reachable_safe (h : (tailing e clock).Reachable w) : Safe e w := by
  refine h.invariant (P := Safe e) ?_ ?_
  · rintro w ⟨hcheckpoint, hphase⟩
    refine ⟨fun hc => ?_, ?_⟩
    · rw [hcheckpoint] at hc
      cases hc
    · rw [hphase]
      exact trivial
  · exact fun w w' _ hsafe hstep => step_safe hsafe hstep

theorem flatten_getLast {lines : List (List UInt8)} (h : ∀ line ∈ lines, IsLine line) :
    lines.flatten = [] ∨ lines.flatten.getLast? = some newline := by
  induction lines using List.reverseRecOn with
  | nil => exact .inl rfl
  | append_singleton lines line =>
    obtain ⟨body, -, rfl⟩ := h line (by simp)
    exact .inr (by simp)

/-- A stored checkpoint is the end of a complete line and has the hash of the bytes before
it; the lines before it are the first lines of the source, and each of them is a valid
record that the log has accepted once. -/
theorem tailer_safe (e : Settings) (clock : Clock τ) {w : World τ}
    (h : (tailing e clock).Reachable w) {c : Checkpoint} (hc : w.checkpoint = some c) :
    c.offset ≤ w.source.length ∧
    (c.offset = 0 ∨ w.source[c.offset - 1]? = some newline) ∧
    c.digest = hexdigest (w.source.take c.offset) ∧
    (completeLines [] (w.source.take c.offset)).flatten = w.source.take c.offset ∧
    completeLines [] (w.source.take c.offset) <+: completeLines [] w.source ∧
    ∀ line ∈ completeLines [] (w.source.take c.offset), ∃ body value,
      strictJson e line = .ok body ∧ normalizeEvent e body = .ok value ∧
        w.log.Holds value ∧ w.log.events.keys.count value.eventId = 1 := by
  obtain ⟨hoffset, hdigest, lines, hlines, hdelivered⟩ := (reachable_safe h).checkpoint hc
  have hisLine := fun line hline => (hdelivered line hline).1
  have hsplit : completeLines [] (w.source.take c.offset) = lines := by
    have := completeLines_flatten hisLine []
    rwa [append_nil, completeLines, append_nil, ← hlines] at this
  rw [hsplit]
  refine ⟨hoffset, ?_, hdigest, hlines.symm, ?_, ?_⟩
  · rcases flatten_getLast hisLine with hnil | hlast
    · left
      rw [← hlines, take_eq_nil_iff] at hnil
      rcases hnil with hzero | hempty
      · exact hzero
      · rw [hempty] at hoffset
        simpa using hoffset
    · by_cases hzero : c.offset = 0
      · exact .inl hzero
      · right
        rw [← hlines, getLast?_eq_getElem?, length_take, min_eq_left hoffset, getElem?_take_of_lt (by omega)] at hlast
        exact hlast
  · have hsource := completeLines_flatten hisLine (w.source.drop c.offset)
    rw [← hlines, take_append_drop] at hsource
    rw [hsource]
    exact prefix_append _ _
  · intro line hline
    obtain ⟨body, value, hbody, hvalue, hholds⟩ := (hdelivered line hline).2
    refine ⟨body, value, hbody, hvalue, hholds, ?_⟩
    obtain ⟨row, hrow, -⟩ := hholds
    exact count_eq_one_of_mem w.log.events.nodup (Dict.mem_keys.mpr ⟨row, hrow⟩)

/-! ### One click -/

/-- ASCII texts; every address is canonical. -/
def ascii : Settings := ⟨some, fun bytes => some (String.ofList (bytes.map fun b => Char.ofNat b.toNat))⟩

def seconds : Clock ℕ := ⟨fun now => now, fun _ => true⟩

def click : Event := ⟨"e", "a", 0, "u", "1.1.1.1", "US"⟩

def clickBody : Json :=
  .obj [("event_id", .str "e"), ("ad_id", .str "a"), ("click_timestamp", .int 0),
    ("user_id", .str "u"), ("ip", .str "1.1.1.1"), ("country", .str "us")]

def clickLine : List UInt8 :=
  ("\x7b\"event_id\":\"e\",\"ad_id\":\"a\",\"click_timestamp\":0,\"user_id\":\"u\",\"ip\":\"1.1.1.1\",\"country\":\"us\"\x7d\n".toList).map
    fun c => UInt8.ofNat c.toNat

theorem clickLine_json : strictJson ascii clickLine = .ok clickBody := by
  rfl
theorem clickBody_event : normalizeEvent ascii clickBody = .ok click := by
  have htexts : isText "e" = true ∧ isText "a" = true ∧ isText "u" = true ∧
    isText "1.1.1.1" = true ∧ isText "us" = true ∧ isCountry "us" = true := by decide
  have hfields : hasFields clickBody = true := by decide
  have hupper : upper "us" = "US" := by decide
  simp [normalizeEvent, event, hfields]
  simp [clickBody, text, integer, Json.get?, htexts, ascii, hupper, require, click, bind, Except.bind, List.lookup]

def clickRun : Ingest := ⟨0, none, [], [clickBody], clickLine, 1⟩

theorem clickLine_read : readOne ascii ⟨0, none, [], [], [], 1⟩ clickLine = .reading clickRun := by
  have hline : readline clickLine 8193 = clickLine := by decide +kernel
  have hlast : clickLine.getLast? = some newline := by decide +kernel
  have hlength : ¬ 8192 < clickLine.length := by decide +kernel
  have hne : clickLine ≠ [] := by decide +kernel
  simp [readOne, Ingest.finish, hline, hlast, hlength, hne, clickLine_json, clickRun]

theorem clickLine_end : readOne ascii clickRun clickLine = .waiting clickRun := by
  have hline : readline (clickLine.drop clickRun.finish) 8193 = [] := by decide +kernel
  simp only [readOne, hline, if_true]
  rfl

theorem click_accepted (log : EventLog ℕ) (hheads : log.heads = [0]) (hmax : log.maxEvents = 1)
    (hempty : log.events = .empty) : ∃ log', log.append ascii seconds 0 [clickBody] = .ok (log', [⟨0, 1, false⟩]) := by
  have hposition : 0 < maxPosition := by unfold maxPosition; decide
  refine ⟨{ log with
    heads := [1], events := log.events.set "e" ⟨digest click.toJson, 0, 1, click.toJson.encode, 0⟩ }, ?_⟩
  simp [EventLog.append, prepareEvents, clickBody_event, EventLog.acceptAll, EventLog.accept,
    hheads, hmax, hempty, seconds, click, EventLog.partitions, partitionOf, Nat.mod_one, hposition, require,
    bind, Except.bind, pure, Except.pure]

def clickWorld : World ℕ := ⟨clickLine, none, .init "l" 1 1, .idle⟩

theorem clickWorld_stored : ∃ w, (tailing ascii seconds).Reachable w ∧
    w.checkpoint = some (clickRun.checkpoint "l") ∧ w.source = clickLine := by
  obtain ⟨log, hlog⟩ := click_accepted (.init "l" 1 1) rfl rfl rfl
  have hposition : 0 < maxPosition := by unfold maxPosition; decide
  have hlast : decide (1 ≤ maxPosition) = true := decide_eq_true hposition
  have hbegin : begin none (clickLine.take clickLine.length) 1 = .ok ⟨0, none, [], [], [], 1⟩ := by
    simp [begin, readCheckpoint, require, bind, Except.bind, pure, Except.pure]
  have hack : acknowledge "l" [⟨0, 1, false⟩] 1 none = .ok "l" := by
    have htext : isText "l" = true := by decide
    simp [acknowledge, htext, hlast, require, bind, Except.bind, pure, Except.pure]
  have hstart : (tailing ascii seconds).Reachable clickWorld := .start ⟨rfl, rfl⟩
  have hbegun := Transitions.Reachable.step hstart (Step.start clickWorld clickLine.length 1 _ rfl hbegin)
  have hread := Transitions.Reachable.step hbegun (Step.read _ clickLine.length _ rfl)
  simp only [clickWorld, take_length, clickLine_read] at hread
  have hend := Transitions.Reachable.step hread (Step.read _ clickLine.length _ rfl)
  simp only [take_length, clickLine_end] at hend
  have hreply := Transitions.Reachable.step hend (Step.reply _ 0 clickRun log _ "l" rfl hlog hack)
  have hstore := Transitions.Reachable.step hreply (Step.store _ clickRun "l" rfl)
  exact ⟨_, hstore, rfl, rfl⟩

theorem tailer_safe_click : ∃ w, (tailing ascii seconds).Reachable w ∧
    w.checkpoint = some (clickRun.checkpoint "l") ∧
    (clickRun.checkpoint "l").digest = hexdigest (w.source.take clickRun.finish) := by
  obtain ⟨w, hw, hc, hsource⟩ := clickWorld_stored
  exact ⟨w, hw, hc, (tailer_safe ascii seconds hw hc).2.2.1⟩

end SystemDesign.AdClick
