import SystemDesign.Leaderboard.RedisProtocol

/-!
What the reader of the Redis protocol takes from a stream.

A command that `encode` writes is read back as the texts of its arguments, and what follows it is left (`readReply_encode`).
Whatever the stream is, no more than the budgets is taken from it (`readReply_within`).
-/

namespace SystemDesign.Leaderboard

open Locked List

/-! ### Budgets -/

/-- What was taken of a stream, while nothing has been raised. -/
structure Within (stream : Bytes) (reader : Reader) : Prop where
  taken : ∃ front, stream = front ++ reader.stream ∧ front.length = reader.bytes
  bytes : reader.bytes ≤ maxBytes
  lines : reader.lines.length = reader.items
  items : reader.items ≤ maxItems
  depth : ∀ depth ∈ reader.lines, depth ≤ maxDepth

/-- What was taken of a stream at any end. -/
structure Ended (stream : Bytes) (reader : Reader) : Prop where
  taken : ∃ front, stream = front ++ reader.stream ∧ front.length ≤ maxBytes + 1
  lines : reader.lines.length ≤ maxItems
  depth : ∀ depth ∈ reader.lines, depth ≤ maxDepth

/-- An item is counted and its line is not read yet. -/
structure Counted (stream : Bytes) (reader : Reader) : Prop where
  taken : ∃ front, stream = front ++ reader.stream ∧ front.length = reader.bytes
  bytes : reader.bytes ≤ maxBytes
  lines : reader.lines.length + 1 = reader.items
  items : reader.items ≤ maxItems
  depth : ∀ depth ∈ reader.lines, depth ≤ maxDepth

variable {stream : Bytes}
variable {reader : Reader}

theorem Within.ended (h : Within stream reader) : Ended stream reader := by
  obtain ⟨front, heq, hlength⟩ := h.taken
  have hbytes := h.bytes
  exact ⟨⟨front, heq, by omega⟩, h.lines ▸ h.items, h.depth⟩

theorem countItem_within : Leaves (Within stream) countItem (fun _ => Counted stream) (Ended stream) := by
  unfold countItem
  refine Leaves.bind (Q := fun _ reader => (∃ front, stream = front ++ reader.stream ∧ front.length = reader.bytes) ∧
    reader.bytes ≤ maxBytes ∧ reader.lines.length + 1 = reader.items ∧ reader.lines.length ≤ maxItems ∧
    ∀ depth ∈ reader.lines, depth ≤ maxDepth) (Leaves.effect fun reader h => ?_) fun _ => ?_
  · exact ⟨h.taken, h.bytes, congrArg (· + 1) h.lines, h.lines ▸ h.items, h.depth⟩
  · refine Leaves.read fun items => Leaves.lift (fun _ hrequire reader h => ?_) fun reader h => ?_
    · obtain ⟨⟨htaken, hbytes, hlines, -, hdepth⟩, rfl⟩ := h
      exact ⟨htaken, hbytes, hlines, require_eq_ok.mp hrequire, hdepth⟩
    · obtain ⟨⟨⟨front, heq, hlength⟩, hbytes, -, hlines, hdepth⟩, -⟩ := h
      exact ⟨⟨front, heq, by omega⟩, hlines, hdepth⟩

/-- Bytes that the stream has are taken from it. -/
theorem consume_within {P : Reader → Prop} {size : ℕ} (hP : ∀ reader, P reader → Within stream reader)
    (hsize : ∀ reader, P reader → size ≤ reader.stream.length ∧ reader.bytes + size ≤ maxBytes + 1) :
    Leaves P (consume size) (fun _ => Within stream) (Ended stream) := by
  unfold consume
  refine Leaves.bind (Q := fun _ reader => (∃ front, stream = front ++ reader.stream ∧ front.length = reader.bytes) ∧
    reader.bytes ≤ maxBytes + 1 ∧ reader.lines.length = reader.items ∧ reader.items ≤ maxItems ∧
    ∀ depth ∈ reader.lines, depth ≤ maxDepth) (Leaves.effect fun reader h => ?_) fun _ => ?_
  · have hwithin := hP reader h
    obtain ⟨hstream, hbytes⟩ := hsize reader h
    obtain ⟨front, heq, hlength⟩ := hwithin.taken
    refine ⟨⟨front ++ reader.stream.take size, ?_, ?_⟩, hbytes, hwithin.lines, hwithin.items, hwithin.depth⟩
    · rw [append_assoc, take_append_drop, heq]
    · rw [length_append, length_take, hlength, min_eq_left hstream]
  · refine Leaves.read fun bytes => Leaves.lift (fun _ hrequire reader h => ?_) fun reader h => ?_
    · obtain ⟨⟨htaken, -, hlines, hitems, hdepth⟩, rfl⟩ := h
      exact ⟨htaken, require_eq_ok.mp hrequire, hlines, hitems, hdepth⟩
    · obtain ⟨⟨⟨front, heq, hlength⟩, hbytes, hlines, hitems, hdepth⟩, -⟩ := h
      exact ⟨⟨front, heq, by omega⟩, by omega, hdepth⟩

theorem lift_within {α : Type} (x : Except RedisError α) :
    Leaves (Within stream) (lift x) (fun _ => Within stream) (Ended stream) :=
  Leaves.lift (fun _ _ _ h => h) fun _ h => h.ended

theorem readLine_within {depth : ℕ} (hdepth : depth ≤ maxDepth) :
    Leaves (Counted stream) (readLine depth) (fun _ => Within stream) (Ended stream) := by
  unfold readLine
  refine Leaves.read fun before => ?_
  refine Leaves.bind (Q := fun _ reader => Within stream reader ∧ reader.bytes = before.bytes ∧
    reader.stream = before.stream) (Leaves.effect fun reader h => ?_) fun _ => ?_
  · obtain ⟨h, rfl⟩ := h
    refine ⟨⟨h.taken, h.bytes, h.lines, h.items, fun other hother => ?_⟩, rfl, rfl⟩
    rcases mem_cons.mp hother with rfl | hother
    · exact hdepth
    · exact h.depth other hother
  · refine Leaves.bind (consume_within (fun _ h => h.1) fun reader h => ?_) fun _ =>
      Leaves.bind (lift_within _) fun _ => Leaves.pure fun _ h => h
    obtain ⟨hwithin, hbytes, hstream⟩ := h
    have hle := hwithin.bytes
    rw [hstream, hbytes, lineLength]
    rw [hbytes] at hle
    omega

theorem readBulk_within (length : ℕ) :
    Leaves (Within stream) (readBulk length) (fun _ => Within stream) (Ended stream) := by
  unfold readBulk
  refine Leaves.read fun before => ?_
  refine Leaves.bind (Q := fun _ reader => (Within stream reader ∧ reader = before) ∧
    before.bytes + (length + 2) ≤ maxBytes) (Leaves.lift (fun _ hrequire reader h => ?_) fun _ h => h.1.ended) fun _ => ?_
  · exact ⟨h, require_eq_ok.mp hrequire⟩
  · refine Leaves.bind (consume_within (fun _ h => h.1.1) fun reader h => ?_) fun _ =>
      Leaves.bind (lift_within _) fun _ => Leaves.bind (lift_within _) fun _ => Leaves.pure fun _ h => h
    obtain ⟨⟨-, rfl⟩, hle⟩ := h
    rw [length_take]
    omega

variable {item : Locked RedisError Reader Reply}

theorem readItems_within (hitem : Leaves (Within stream) item (fun _ => Within stream) (Ended stream)) (count : ℕ) :
    Leaves (Within stream) (readItems item count) (fun _ => Within stream) (Ended stream) := by
  induction count with
  | zero => exact Leaves.pure fun _ h => h
  | succ count ih => exact hitem.bind fun _ => ih.bind fun _ => Leaves.pure fun _ h => h

theorem readValue_within (hitem : Leaves (Within stream) item (fun _ => Within stream) (Ended stream)) (line : Bytes) :
    Leaves (Within stream) (readValue item line) (fun _ => Within stream) (Ended stream) := by
  unfold readValue
  dsimp only
  split
  · exact (lift_within _).bind fun _ => Leaves.pure fun _ h => h
  · exact lift_within _
  · exact (lift_within _).bind fun _ => Leaves.pure fun _ h => h
  · refine (lift_within _).bind fun length => ?_
    split
    · exact Leaves.pure fun _ h => h
    · exact (lift_within _).bind fun _ => readBulk_within _
  · refine (lift_within _).bind fun length => ?_
    split
    · exact Leaves.pure fun _ h => h
    · refine (lift_within _).bind fun _ => Leaves.read fun items => ?_
      refine Leaves.mono ((lift_within _).bind fun _ => (readItems_within hitem _).bind fun _ =>
        Leaves.pure fun _ h => h) (fun _ h => h.1) (fun _ _ h => h) fun _ h => h
  · exact lift_within _

theorem readFrom_within (stream : Bytes) (left : ℕ) :
    Leaves (Within stream) (readFrom left) (fun _ => Within stream) (Ended stream) := by
  induction left with
  | zero =>
    refine Leaves.bind (Q := fun _ => Ended stream) (Leaves.effect fun _ h => ?_) fun _ =>
      Leaves.lift (fun _ h => by cases h) fun _ h => h
    have hended := h.ended
    exact ⟨hended.taken, hended.lines, hended.depth⟩
  | succ left ih =>
    exact countItem_within.bind fun _ => (readLine_within (Nat.sub_le _ _)).bind fun line => readValue_within ih line

/-- Whatever the stream is, the reader ends within its budgets. -/
theorem readReply_within (stream : Bytes) : Ended stream (readReply.exec (Reader.new stream)).2 := by
  have h := readFrom_within stream (maxDepth + 1) (Reader.new stream)
    ⟨⟨[], rfl, rfl⟩, Nat.zero_le _, rfl, Nat.zero_le _, fun _ h => absurd h not_mem_nil⟩
  unfold readReply
  rcases hrun : (readFrom (maxDepth + 1)).exec (Reader.new stream) with ⟨e | reply, reader⟩
  · rw [hrun] at h
    exact h
  · rw [hrun] at h
    exact Within.ended h

/-! ### Commands -/

theorem digit_range {n : ℕ} {c : Char} (h : c ∈ Nat.toDigits 10 n) : 48 ≤ c.toNat ∧ c.toNat ≤ 57 := by
  have hdigit := Nat.isDigit_of_mem_toDigits (by omega) (by omega) h
  simp only [Char.isDigit, Bool.and_eq_true, decide_eq_true_eq] at hdigit
  exact hdigit

theorem not_newline_mem_decimal (n : ℕ) : (10 : UInt8) ∉ decimal n := by
  intro h
  obtain ⟨c, hc, heq⟩ := mem_map.mp h
  obtain ⟨hlow, hhigh⟩ := digit_range hc
  have := congrArg UInt8.toNat heq
  rw [UInt8.toNat_ofNat'] at this
  have hten : (10 : UInt8).toNat = 10 := rfl
  omega

theorem decimal_chars (n : ℕ) : (decimal n).map (fun b => Char.ofNat b.toNat) = Nat.toDigits 10 n := by
  rw [decimal, map_map]
  refine (map_congr_left fun c hc => ?_).trans (List.map_id _)
  obtain ⟨hlow, hhigh⟩ := digit_range hc
  rw [Function.comp_apply, UInt8.toNat_ofNat', Nat.mod_eq_of_lt (by omega), Char.ofNat_toNat]
  rfl

theorem length_decimal_le {n : ℕ} (h : n < 10 ^ 18) : (decimal n).length ≤ 18 := by
  rw [decimal, length_map]
  exact (Nat.length_toDigits_le_iff (by omega) (by omega)).mpr h

theorem number_decimal {n : ℕ} (h : n < 10 ^ 18) : number (decimal n) = .ok n := by
  have hlength := length_decimal_le h
  have hliteral : intLiteral ((decimal n).map fun b => Char.ofNat b.toNat) = some (n : ℤ) := by
    rw [decimal_chars, ← Json.intLiteral_printInt n, Json.printInt, if_neg (by omega), Int.natAbs_natCast]
  rw [number, hliteral]
  dsimp only
  rw [if_neg (by omega), if_neg (not_not.mpr ⟨by omega, by omega⟩)]

theorem header_eq (marker : UInt8) (n : ℕ) : header marker n = (marker :: (decimal n ++ [13])) ++ [10] := by
  simp [header, crlf]

theorem length_header (marker : UInt8) (n : ℕ) : (header marker n).length = (decimal n).length + 3 := by
  simp [header, crlf]

variable {rest : Bytes}

theorem readLine_header {marker : UInt8} {n depth : ℕ} (hmarker : marker ≠ 10) (hn : n < 10 ^ 18)
    (hstream : reader.stream = header marker n ++ rest) (hbytes : reader.bytes + (header marker n).length ≤ maxBytes) :
    (readLine depth).exec reader = (.ok (header marker n),
      ⟨rest, reader.bytes + (header marker n).length, reader.items, depth :: reader.lines⟩) := by
  have hlength := length_decimal_le hn
  have hheader := length_header marker n
  have hnewline : (10 : UInt8) ∉ marker :: (decimal n ++ [13]) := by
    intro h
    rcases mem_cons.mp h with h | h
    · exact hmarker h.symm
    · rcases mem_append.mp h with h | h
      · exact not_newline_mem_decimal n h
      · exact absurd (mem_singleton.mp h) (by decide)
  have hindex : reader.stream.idxOf 10 + 1 = (header marker n).length := by
    rw [hstream, header_eq, append_assoc, idxOf_append_of_notMem hnewline]
    simp
  have hstreamLength : reader.stream.length = (header marker n).length + rest.length := by
    rw [hstream, length_append]
  have hsize : lineLength (min (maxLine + 1) (maxBytes - reader.bytes + 1)) reader.stream = (header marker n).length := by
    rw [lineLength, hindex, hstreamLength, maxLine]
    omega
  have htake : reader.stream.take (header marker n).length = header marker n := by rw [hstream, take_left]
  have hend : (header marker n).drop ((header marker n).length - 2) = crlf := by
    have hsplit : header marker n = (marker :: decimal n) ++ crlf := rfl
    rw [hsplit, length_append, show (marker :: decimal n).length + crlf.length - 2 = (marker :: decimal n).length from
      rfl, drop_left]
  have hline : header marker n ≠ [] ∧ (header marker n).length ≤ maxLine ∧
      (header marker n).drop ((header marker n).length - 2) = crlf :=
    ⟨cons_ne_nil _ _, by rw [maxLine]; omega, hend⟩
  unfold readLine
  rw [exec_bind_ok (exec_read _ _)]
  dsimp only [id]
  rw [exec_bind_ok (exec_effect _ _), hsize, htake]
  have hconsume : (consume (header marker n).length).exec { reader with lines := depth :: reader.lines } = (.ok (),
      ⟨rest, reader.bytes + (header marker n).length, reader.items, depth :: reader.lines⟩) := by
    unfold consume
    rw [exec_bind_ok (exec_effect _ _), exec_bind_ok (exec_read _ _)]
    dsimp only
    rw [hstream, drop_left]
    exact exec_require hbytes _ _
  rw [exec_bind_ok hconsume, exec_bind_ok (exec_require hline _ _)]
  rfl

theorem header_value (marker : UInt8) (n : ℕ) :
    ((header marker n).take ((header marker n).length - 2)).drop 1 = decimal n := by
  have hsplit : header marker n = (marker :: decimal n) ++ crlf := rfl
  have hlength : (header marker n).length - 2 = (marker :: decimal n).length := by
    rw [hsplit, length_append]
    rfl
  rw [hlength, hsplit, take_left]
  rfl

theorem countItem_exec (h : reader.items < maxItems) :
    countItem.exec reader = (.ok (), { reader with items := reader.items + 1 }) := by
  unfold countItem
  rw [exec_bind_ok (exec_effect _ _), exec_bind_ok (exec_read _ _)]
  exact exec_require h _ _

theorem readValue_bulk {line : Bytes} (h : line.head? = some 36) : readValue item line = (do
      let length ← lift (number ((line.take (line.length - 2)).drop 1))
      if length = -1 then return .null
      else do
        lift (require (0 ≤ length) (.message "invalid RESP length"))
        readBulk length.toNat) := by
  unfold readValue
  rw [h]
  rfl

theorem readValue_array {line : Bytes} (h : line.head? = some 42) : readValue item line = (do
      let length ← lift (number ((line.take (line.length - 2)).drop 1))
      if length = -1 then return .null
      else do
        lift (require (0 ≤ length) (.message "invalid RESP length"))
        let items ← read Reader.items
        lift (require (length.toNat ≤ maxArray ∧ items + length.toNat ≤ maxItems)
          (.message "RESP array exceeds budget"))
        let values ← readItems item length.toNat
        return .array values) := by
  unfold readValue
  rw [h]
  rfl

/-- The text that an argument is read back as. -/
def Arg.reading : Arg → Option String
  | .bytes data => ofUtf8Bytes data
  | arg => some arg.text

theorem ofUtf8Bytes_data (arg : Arg) : ofUtf8Bytes arg.data = arg.reading := by
  cases arg with
  | bytes data => rfl
  | _ => exact ofUtf8Bytes_utf8Bytes _

/-- The bytes of one argument are one item. -/
theorem readFrom_arg {left : ℕ} {arg : Arg} {text : String} (htext : arg.reading = some text)
    (hstream : reader.stream = header 36 arg.data.length ++ (arg.data ++ (crlf ++ rest)))
    (hbytes : reader.bytes + ((header 36 arg.data.length).length + arg.data.length + 2) ≤ maxBytes)
    (hitems : reader.items < maxItems) : ∃ lines, (readFrom (left + 1)).exec reader = (.ok (.text text),
      ⟨rest, reader.bytes + ((header 36 arg.data.length).length + arg.data.length + 2), reader.items + 1, lines⟩) := by
  have hsmall : arg.data.length < 10 ^ 18 := by
    rw [maxBytes] at hbytes
    omega
  refine ⟨(maxDepth - left) :: reader.lines, ?_⟩
  have hline : (readLine (maxDepth - left)).exec { reader with items := reader.items + 1 } = (.ok (header 36 arg.data.length),
      ⟨arg.data ++ (crlf ++ rest), reader.bytes + (header 36 arg.data.length).length, reader.items + 1,
        (maxDepth - left) :: reader.lines⟩) :=
    readLine_header (by decide) hsmall hstream (by show reader.bytes + _ ≤ maxBytes; omega)
  have hnonneg : (0 : ℤ) ≤ (arg.data.length : ℤ) := Int.natCast_nonneg _
  rw [readFrom, exec_bind_ok (countItem_exec hitems), exec_bind_ok hline, readValue_bulk rfl, header_value,
    number_decimal hsmall, exec_bind_ok (exec_lift _ _), if_neg (by omega), exec_bind_ok (exec_require hnonneg _ _),
    Int.toNat_natCast]
  have hdata : (arg.data ++ (crlf ++ rest)).take (arg.data.length + 2) = arg.data ++ crlf := by
    rw [← append_assoc]
    exact take_left' (length_append ..)
  have hlength : (arg.data ++ crlf).length = arg.data.length + 2 := length_append ..
  unfold readBulk
  rw [exec_bind_ok (exec_read _ _)]
  dsimp only [id]
  rw [exec_bind_ok (exec_require (by omega) _ _), hdata]
  have hconsume : (consume (arg.data ++ crlf).length).exec ⟨arg.data ++ (crlf ++ rest),
      reader.bytes + (header 36 arg.data.length).length, reader.items + 1, (maxDepth - left) :: reader.lines⟩ = (.ok (),
      ⟨rest, reader.bytes + ((header 36 arg.data.length).length + arg.data.length + 2), reader.items + 1,
        (maxDepth - left) :: reader.lines⟩) := by
    unfold consume
    rw [exec_bind_ok (exec_effect _ _), exec_bind_ok (exec_read _ _), ← append_assoc, drop_left, hlength]
    have hsum : reader.bytes + (header 36 arg.data.length).length + (arg.data.length + 2)
        = reader.bytes + ((header 36 arg.data.length).length + arg.data.length + 2) := by omega
    dsimp only
    rw [hsum]
    exact exec_require hbytes _ _
  rw [exec_bind_ok hconsume, exec_bind_ok (exec_require ⟨hlength, drop_left⟩ _ _), take_left, textOf,
    ofUtf8Bytes_data, htext]
  rfl

/-- The arguments are read one after the other. -/
theorem readItems_args {left total : ℕ} {args : List Arg} {texts : List String} {tail : Bytes}
    (h : encodeFrom args total = .ok tail) (htexts : args.map Arg.reading = texts.map some)
    (hstream : reader.stream = tail ++ rest) (hbytes : reader.bytes = total)
    (hitems : reader.items + args.length ≤ maxItems) :
    ∃ reader', (readItems (readFrom (left + 1)) args.length).exec reader = (.ok (texts.map .text), reader') ∧
      reader'.stream = rest ∧ reader'.bytes = total + tail.length := by
  induction args generalizing total tail texts reader with
  | nil =>
    obtain rfl := Except.ok.inj h
    obtain rfl : texts = [] := by simpa using htexts.symm
    exact ⟨reader, rfl, hstream, hbytes⟩
  | cons arg args ih =>
    obtain ⟨_, hrequire, h⟩ := of_bind h
    obtain ⟨tail', htail, h⟩ := of_bind h
    obtain rfl := Except.ok.inj h
    obtain ⟨text, texts, rfl⟩ : ∃ text texts', texts = text :: texts' := by
      cases texts with
      | nil => simp at htexts
      | cons text texts => exact ⟨text, texts, rfl⟩
    obtain ⟨htext, htexts⟩ := List.cons.inj htexts
    have hle := require_eq_ok.mp hrequire
    rw [length_cons] at hitems
    have hfront : reader.stream = header 36 arg.data.length ++ (arg.data ++ (crlf ++ (tail' ++ rest))) := by
      rw [hstream]
      simp only [append_assoc]
    obtain ⟨lines, hrun⟩ : ∃ lines, (readFrom (left + 1)).exec reader = (.ok (.text text), ⟨tail' ++ rest, reader.bytes +
        ((header 36 arg.data.length).length + arg.data.length + 2), reader.items + 1, lines⟩) :=
      readFrom_arg htext hfront (by rw [hbytes]; exact hle) (by omega)
    obtain ⟨reader', hitemsRun, hrest, hbytes'⟩ : ∃ reader', (readItems (readFrom (left + 1)) args.length).exec
        ⟨tail' ++ rest, reader.bytes + ((header 36 arg.data.length).length + arg.data.length + 2), reader.items + 1, lines⟩
        = (.ok (texts.map .text), reader') ∧ reader'.stream = rest ∧
          reader'.bytes = total + ((header 36 arg.data.length).length + arg.data.length + 2) + tail'.length :=
      ih htail htexts rfl (by rw [hbytes]) (by show reader.items + 1 + args.length ≤ maxItems; omega)
    refine ⟨reader', ?_, hrest, ?_⟩
    · rw [length_cons, readItems, exec_bind_ok hrun, exec_bind_ok hitemsRun]
      rfl
    · have hcrlf : crlf.length = 2 := rfl
      rw [hbytes', length_append, length_append, length_append]
      omega

theorem readReply_encode {args : List Arg} {texts : List String} {data : Bytes} (rest : Bytes)
    (h : encode args = .ok data) (htexts : args.map Arg.reading = texts.map some) :
    ∃ reader, readReply.exec (Reader.new (data ++ rest)) = (.ok (.array (texts.map .text)), reader) ∧
      reader.stream = rest ∧ reader.bytes = data.length := by
  obtain ⟨_, hrequire, h⟩ := of_bind h
  obtain ⟨tail, htail, h⟩ := of_bind h
  obtain rfl := Except.ok.inj h
  obtain ⟨-, hmany⟩ := require_eq_ok.mp hrequire
  have hsmall : args.length < 10 ^ 18 := by omega
  have hdigits := length_decimal_le hsmall
  have hheader := length_header 42 args.length
  have hcount : countItem.exec (Reader.new (header 42 args.length ++ tail ++ rest))
      = (.ok (), ⟨header 42 args.length ++ tail ++ rest, 0, 1, []⟩) := countItem_exec (show 0 < maxItems by decide)
  have hline : (readLine (maxDepth - maxDepth)).exec ⟨header 42 args.length ++ tail ++ rest, 0, 1, []⟩
      = (.ok (header 42 args.length), ⟨tail ++ rest, 0 + (header 42 args.length).length, 1, [maxDepth - maxDepth]⟩) :=
    readLine_header (by decide) hsmall (append_assoc ..) (by show 0 + _ ≤ maxBytes; rw [maxBytes]; omega)
  have hnonneg : (0 : ℤ) ≤ (args.length : ℤ) := Int.natCast_nonneg _
  have hbudget : args.length ≤ maxArray ∧ 1 + args.length ≤ maxItems := by
    rw [maxArray, maxItems]
    omega
  obtain ⟨reader, hrun, hrest, hbytes⟩ : ∃ reader, (readItems (readFrom maxDepth) args.length).exec
      ⟨tail ++ rest, 0 + (header 42 args.length).length, 1, [maxDepth - maxDepth]⟩ = (.ok (texts.map .text), reader) ∧
      reader.stream = rest ∧ reader.bytes = (header 42 args.length).length + tail.length :=
    readItems_args htail htexts rfl (Nat.zero_add _) hbudget.2
  refine ⟨reader, ?_, hrest, by rw [hbytes, length_append]⟩
  unfold readReply
  rw [readFrom, exec_bind_ok hcount, exec_bind_ok hline, readValue_array rfl, header_value, number_decimal hsmall,
    exec_bind_ok (exec_lift _ _), if_neg (by omega), exec_bind_ok (exec_require hnonneg _ _), Int.toNat_natCast,
    exec_bind_ok (exec_read _ _), exec_bind_ok (exec_require hbudget _ _), exec_bind_ok hrun]
  rfl

/-- Genuine commands come back as they are, and no stream takes more than the budgets. -/
theorem resp_framing : (∀ (args : List Arg) (texts : List String) (data rest : Bytes), encode args = .ok data →
      args.map Arg.reading = texts.map some → ∃ reader, readReply.exec (Reader.new (data ++ rest))
        = (.ok (.array (texts.map .text)), reader) ∧ reader.stream = rest ∧ reader.bytes = data.length) ∧
    ∀ stream : Bytes, Ended stream (readReply.exec (Reader.new stream)).2 :=
  ⟨fun _ _ _ rest h htexts => readReply_encode rest h htexts, readReply_within⟩

end SystemDesign.Leaderboard
