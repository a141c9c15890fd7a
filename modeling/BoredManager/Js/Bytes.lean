import BoredManager.Js.Utf8

/-! Buffers as lists of bytes: little-endian reads, and the text of UTF-8 bytes. -/
namespace BoredManager.Js

abbrev Bytes := List Nat

/-- `buffer.readUInt16LE(offset)`, for offsets that lie in the buffer. -/
def readUInt16LE (buffer : Bytes) (offset : Nat) : Nat :=
  buffer.getD offset 0 + 256 * buffer.getD (offset + 1) 0

/-- `buffer.readUInt32LE(offset)`. -/
def readUInt32LE (buffer : Bytes) (offset : Nat) : Nat :=
  readUInt16LE buffer offset + 65536 * readUInt16LE buffer (offset + 2)

/-- The code units of a code point. -/
def pointUnits (c : Nat) : Text :=
  if c < 65536 then [c] else [55296 + (c - 65536) / 1024, 56320 + (c - 65536) % 1024]

/-- A decoder inside a character: the bytes to come, the range of the next one, and the
bits so far. -/
structure Utf8State where
  needed : Nat
  lower : Nat
  upper : Nat
  point : Nat

def Utf8State.idle : Utf8State := ⟨0, 128, 191, 0⟩

/-- A byte where a character may begin. -/
def utf8First (b : Nat) : Text × Utf8State :=
  if b < 128 then ([b], .idle)
  else if b < 194 then ([65533], .idle)
  else if b < 224 then ([], ⟨1, 128, 191, b - 192⟩)
  else if b < 240 then
    ([], ⟨2, if b = 224 then 160 else 128, if b = 237 then 159 else 191, b - 224⟩)
  else if b < 245 then
    ([], ⟨3, if b = 240 then 144 else 128, if b = 244 then 143 else 191, b - 240⟩)
  else ([65533], .idle)

/-- One byte; a byte that does not go on with the character ends it as U+FFFD and is read
again as a first byte. -/
def utf8Step (s : Utf8State) (b : Nat) : Text × Utf8State :=
  if s.needed = 0 then utf8First b
  else if s.lower ≤ b ∧ b ≤ s.upper then
    if s.needed = 1 then (pointUnits (s.point * 64 + (b - 128)), .idle)
    else ([], ⟨s.needed - 1, 128, 191, s.point * 64 + (b - 128)⟩)
  else (65533 :: (utf8First b).1, (utf8First b).2)

def utf8From (s : Utf8State) : Bytes → Text
  | [] => if s.needed = 0 then [] else [65533]
  | b :: bytes => (utf8Step s b).1 ++ utf8From (utf8Step s b).2 bytes

/-- `buffer.toString('utf8')`. -/
def utf8Text (bytes : Bytes) : Text := utf8From .idle bytes

example : utf8Text (utf8 (js "aé€😀")) = js "aé€😀" := by decide

example : utf8Text [226, 130, 97, 192, 128] = [65533, 97, 65533, 65533] := by decide

theorem Scalars.pointUnits {c : Nat} (hc : c < 55296 ∨ (57344 ≤ c ∧ c < 1114112)) {s : Text}
    (hs : Scalars s) : Scalars (pointUnits c ++ s) := by
  unfold Js.pointUnits
  split
  · exact .unit (by omega) hs
  · exact .pair (by omega) (by omega) hs

/-- All code points that the bytes to come can give are between these two. -/
def Utf8State.least (s : Utf8State) : Nat := (s.point * 64 + (s.lower - 128)) * 64 ^ (s.needed - 1)

def Utf8State.greatest (s : Utf8State) : Nat :=
  (s.point * 64 + (s.upper - 128)) * 64 ^ (s.needed - 1) + (64 ^ (s.needed - 1) - 1)

/-- A state in which no surrogate and nothing above U+10FFFF can come out. -/
structure Utf8State.Sound (s : Utf8State) : Prop where
  needed : s.needed ≤ 3
  lower : 128 ≤ s.lower
  upper : s.upper ≤ 191
  range : s.needed = 0 ∨ s.greatest < 55296 ∨ (57344 ≤ s.least ∧ s.greatest < 1114112)

theorem sound_idle : Utf8State.idle.Sound := ⟨by decide, by decide, by decide, .inl rfl⟩

theorem utf8First_sound (b : Nat) :
    (∀ s, Scalars s → Scalars ((utf8First b).1 ++ s)) ∧ (utf8First b).2.Sound := by
  have hmark : ∀ s, Scalars s → Scalars ([65533] ++ s) := fun s => .unit (by omega)
  have hnothing : ∀ s : Text, Scalars s → Scalars ([] ++ s) := fun s => id
  unfold utf8First
  split
  · exact ⟨fun s => .unit (by omega), sound_idle⟩
  split
  · exact ⟨hmark, sound_idle⟩
  split
  · refine ⟨hnothing, ⟨by simp, by simp, by simp, .inr ?_⟩⟩
    simp only [Utf8State.least, Utf8State.greatest]
    omega
  split
  · refine ⟨hnothing, ⟨by simp, by dsimp only; split <;> omega, by dsimp only; split <;> omega,
      .inr ?_⟩⟩
    simp only [Utf8State.least, Utf8State.greatest]
    split <;> split <;> omega
  split
  · refine ⟨hnothing, ⟨by simp, by dsimp only; split <;> omega, by dsimp only; split <;> omega,
      .inr ?_⟩⟩
    simp only [Utf8State.least, Utf8State.greatest]
    split <;> split <;> omega
  · exact ⟨hmark, sound_idle⟩

theorem utf8Step_sound {s : Utf8State} (hs : s.Sound) (b : Nat) :
    (∀ t, Scalars t → Scalars ((utf8Step s b).1 ++ t)) ∧ (utf8Step s b).2.Sound := by
  obtain ⟨needed, lower, upper, point⟩ := s
  obtain ⟨hneeded, hlower, hupper, hrange⟩ := hs
  simp only [Utf8State.least, Utf8State.greatest] at hneeded hlower hupper hrange
  unfold utf8Step
  dsimp only
  split
  · exact utf8First_sound b
  rename_i hpos
  replace hrange := hrange.resolve_left hpos
  split
  · split
    · rename_i hlast
      rw [hlast] at hrange
      generalize hpoint : point * 64 + (b - 128) = c
      have hscalar : c < 55296 ∨ (57344 ≤ c ∧ c < 1114112) := by omega
      exact ⟨fun t ht => Scalars.pointUnits hscalar ht, sound_idle⟩
    · refine ⟨fun t => id, ⟨by dsimp only; omega, le_rfl, le_rfl, .inr ?_⟩⟩
      obtain rfl | rfl : needed = 2 ∨ needed = 3 := by omega
      all_goals
        simp only [Utf8State.least, Utf8State.greatest]
        omega
  · exact ⟨fun t ht => .unit (by omega) ((utf8First_sound b).1 t ht), (utf8First_sound b).2⟩

theorem scalars_utf8From {s : Utf8State} (hs : s.Sound) (bytes : Bytes) :
    Scalars (utf8From s bytes) := by
  induction bytes generalizing s with
  | nil =>
    rw [utf8From]
    split
    · exact .nil
    · exact .unit (by omega) .nil
  | cons b bytes ih => exact (utf8Step_sound hs b).1 _ (ih (utf8Step_sound hs b).2)

/-- Decoded bytes have no lone surrogates. -/
theorem scalars_utf8Text (bytes : Bytes) : Scalars (utf8Text bytes) :=
  scalars_utf8From sound_idle bytes

/-- An ASCII byte is decoded as it is, wherever it stands. -/
theorem utf8From_ascii {s : Utf8State} (hs : s.Sound) (a : Bytes) {c : Nat} (hc : c < 128)
    (b : Bytes) : utf8From s (a ++ c :: b) = utf8From s a ++ c :: utf8Text b := by
  have hfirst : utf8First c = ([c], .idle) := by rw [utf8First, if_pos hc]
  induction a generalizing s with
  | nil =>
    simp only [List.nil_append, utf8From, utf8Step]
    split
    · rw [hfirst]
      rfl
    · have hlow := hs.lower
      rw [if_neg (by omega), hfirst]
      rfl
  | cons x a ih =>
    simp only [List.cons_append, utf8From, ih (utf8Step_sound hs x).2, List.append_assoc]

theorem utf8Text_ascii (a : Bytes) {c : Nat} (hc : c < 128) (b : Bytes) :
    utf8Text (a ++ c :: b) = utf8Text a ++ c :: utf8Text b :=
  utf8From_ascii sound_idle a hc b

theorem utf8Text_append_ascii (a : Bytes) {b : Bytes} (hb : ∀ c ∈ b, c < 128) :
    utf8Text (a ++ b) = utf8Text a ++ b := by
  induction b generalizing a with
  | nil => simp
  | cons c b ih =>
    have hlow : ∀ x ∈ b, x < 128 := fun x hx => hb x (List.mem_cons_of_mem c hx)
    have hrest : utf8Text b = b := ih [] hlow
    rw [utf8Text_ascii a (hb c List.mem_cons_self), hrest]

/-! What was written is read back. -/

theorem utf8First_two {b : Nat} (h : 194 ≤ b ∧ b < 224) : utf8First b = ([], ⟨1, 128, 191, b - 192⟩) := by
  rw [utf8First, if_neg (by omega), if_neg (by omega), if_pos h.2]

theorem utf8First_three {b : Nat} (h : 224 ≤ b ∧ b < 240) : utf8First b =
    ([], ⟨2, if b = 224 then 160 else 128, if b = 237 then 159 else 191, b - 224⟩) := by
  rw [utf8First, if_neg (by omega), if_neg (by omega), if_neg (by omega), if_pos h.2]

theorem utf8First_four {b : Nat} (h : 240 ≤ b ∧ b < 245) : utf8First b =
    ([], ⟨3, if b = 240 then 144 else 128, if b = 244 then 143 else 191, b - 240⟩) := by
  rw [utf8First, if_neg (by omega), if_neg (by omega), if_neg (by omega), if_neg (by omega),
    if_pos h.2]

/-- The last byte of a character. -/
theorem utf8Step_last {s : Utf8State} {b : Nat} (hneeded : s.needed = 1)
    (hb : s.lower ≤ b ∧ b ≤ s.upper) :
    utf8Step s b = (pointUnits (s.point * 64 + (b - 128)), .idle) := by
  rw [utf8Step, if_neg (by omega), if_pos hb, if_pos hneeded]

/-- A byte inside a character. -/
theorem utf8Step_inner {s : Utf8State} {b : Nat} (hneeded : 1 < s.needed)
    (hb : s.lower ≤ b ∧ b ≤ s.upper) :
    utf8Step s b = ([], ⟨s.needed - 1, 128, 191, s.point * 64 + (b - 128)⟩) := by
  rw [utf8Step, if_neg (by omega), if_pos hb, if_neg (by omega)]

theorem utf8From_cons (s : Utf8State) (b : Nat) (bytes : Bytes) :
    utf8From s (b :: bytes) = (utf8Step s b).1 ++ utf8From (utf8Step s b).2 bytes := rfl

theorem utf8Step_idle (b : Nat) : utf8Step .idle b = utf8First b := rfl

/-- The bytes of a code point that is no surrogate are read as the code point. -/
theorem utf8Text_point {c : Nat} (hc : c < 55296 ∨ (57344 ≤ c ∧ c < 1114112)) (rest : Bytes) :
    utf8Text (utf8Point c ++ rest) = pointUnits c ++ utf8Text rest := by
  obtain ⟨h, hbytes⟩ | ⟨h1, h2, hbytes⟩ | ⟨h1, h2, hbytes⟩ | ⟨h1, hbytes⟩ := utf8Point_cases c
  · have hfirst : utf8First c = ([c], .idle) := if_pos h
    have hunits : pointUnits c = [c] := by rw [pointUnits, if_pos (by omega)]
    rw [hbytes, hunits, utf8Text, List.cons_append, utf8From_cons, utf8Step_idle, hfirst]
    rfl
  · have hpoint : (192 + c / 64 - 192) * 64 + (128 + c % 64 - 128) = c := by omega
    rw [hbytes, utf8Text, List.cons_append, utf8From_cons, utf8Step_idle, utf8First_two (by omega),
      List.cons_append, utf8From_cons, utf8Step_last rfl (by dsimp only; omega), hpoint]
    rfl
  · have hpoint : ((224 + c / 4096 - 224) * 64 + (128 + c / 64 % 64 - 128)) * 64 +
        (128 + c % 64 - 128) = c := by omega
    rw [hbytes, utf8Text, List.cons_append, utf8From_cons, utf8Step_idle,
      utf8First_three (by omega), List.cons_append, utf8From_cons,
      utf8Step_inner (by dsimp only; omega) (by dsimp only; split_ifs <;> omega), List.cons_append, utf8From_cons,
      utf8Step_last rfl (by dsimp only; omega), hpoint]
    rfl
  · have hpoint : (((240 + c / 262144 - 240) * 64 + (128 + c / 4096 % 64 - 128)) * 64 +
        (128 + c / 64 % 64 - 128)) * 64 + (128 + c % 64 - 128) = c := by omega
    rw [hbytes, utf8Text, List.cons_append, utf8From_cons, utf8Step_idle,
      utf8First_four (by omega), List.cons_append, utf8From_cons,
      utf8Step_inner (by dsimp only; omega) (by dsimp only; split_ifs <;> omega), List.cons_append, utf8From_cons,
      utf8Step_inner (by dsimp only; omega) (by dsimp only; omega), List.cons_append, utf8From_cons,
      utf8Step_last rfl (by dsimp only; omega), hpoint]
    rfl

/-- A well-formed text is read back from its bytes. -/
theorem utf8Text_utf8 {s : Text} (hs : Scalars s) : utf8Text (utf8 s) = s := by
  induction hs with
  | nil => rfl
  | @unit u s hu _ ih =>
    have hunits : pointUnits u = [u] := by rw [pointUnits, if_pos (by omega)]
    rw [utf8_unit hu, utf8Text_point (by omega), hunits, ih]
    rfl
  | @pair u v s hu hv _ ih =>
    have hrange := pairPoint_range hu hv
    have hunits : pointUnits (pairPoint u v) = [u, v] := by
      have hsmall : ¬pairPoint u v < 65536 := by omega
      have hu' : 55296 + (pairPoint u v - 65536) / 1024 = u := by
        unfold pairPoint
        omega
      have hv' : 56320 + (pairPoint u v - 65536) % 1024 = v := by
        unfold pairPoint
        omega
      rw [pointUnits, if_neg hsmall, hu', hv']
    rw [utf8_pair hu hv, utf8Text_point (by omega), hunits, ih]
    rfl

end BoredManager.Js
