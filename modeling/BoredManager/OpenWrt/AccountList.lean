import BoredManager.Js.Number

/-! `parsePppoeList`: the uploaded PPPoE account list, one account a line. -/
namespace BoredManager.OpenWrt
open BoredManager.Js

structure PppoeInputRow where
  user : Text
  pass : Text
  vlan : Option Int
deriving DecidableEq

structure PppoeParseError where
  line : Nat
  reason : Text
deriving DecidableEq

structure PppoeListResult where
  rows : List PppoeInputRow
  errors : List PppoeParseError
  duplicates : List Text
deriving DecidableEq

/-- The first delimiter found in this order cuts the whole line. -/
def splitPppoeLine (line : Text) : Option (List Text) :=
  if 9 ∈ line then some ((splitRuns (· == 9) line).map trim)
  else if 44 ∈ line then some ((line.splitOnP (· == 44)).map trim)
  else if 59 ∈ line then some ((line.splitOnP (· == 59)).map trim)
  else if 124 ∈ line then some ((line.splitOnP (· == 124)).map trim)
  else if line.any isSpace then some (splitRuns isSpace (trim line))
  else none

def expectedFields : Text := js "expected username and password, with an optional VLAN"
def usernameLength : Text := js "username must contain 1-64 characters"
def passwordLength : Text := js "password must contain 1-64 characters"
def vlanRange : Text := js "VLAN must be a whole number from 1 to 4094"

/-- The VLAN field: absent, a number in range, or an error. -/
def parseVlan (raw : Text) : Except Text (Option Int) :=
  if raw = [] then .ok none
  else match (Number.ofText raw).integer? with
    | some v => if v < 1 ∨ 4094 < v then .error vlanRange else .ok (some v)
    | none => .error vlanRange

/-- One line that is neither empty nor a comment. -/
def parsePppoeFields (line : Text) : Except Text PppoeInputRow :=
  match splitPppoeLine line with
  | some (user :: pass :: more) =>
    if 1 < more.length then .error expectedFields
    else if user.length < 1 ∨ 64 < user.length then .error usernameLength
    else if pass.length < 1 ∨ 64 < pass.length then .error passwordLength
    else (parseVlan (more.headD [])).map fun vlan => ⟨user, pass, vlan⟩
  | _ => .error expectedFields

/-- The loop's state; `seen` holds the accepted usernames. -/
structure PppoeListState where
  result : PppoeListResult
  seen : List Text

def PppoeListState.step (st : PppoeListState) (entry : Text × Nat) : PppoeListState :=
  let line := trim entry.1
  if line = [] ∨ line.head? = some 35 then st
  else match parsePppoeFields line with
    | .error reason =>
      { st with result := { st.result with errors := st.result.errors ++ [⟨entry.2 + 1, reason⟩] } }
    | .ok row =>
      let duplicates :=
        if row.user ∈ st.seen ∧ row.user ∉ st.result.duplicates then
          st.result.duplicates ++ [row.user]
        else st.result.duplicates
      { result := { st.result with rows := st.result.rows ++ [row], duplicates },
        seen := row.user :: st.seen }

/-- Parse an uploaded/pasted PPPoE account list. -/
def parsePppoeList (text : Text) : PppoeListResult :=
  ((splitLines text).zipIdx.foldl PppoeListState.step ⟨⟨[], [], []⟩, []⟩).result

/-- No field of a line holds a unit that the line does not. -/
theorem mem_splitPppoeLine {line : Text} {fields : List Text} (h : splitPppoeLine line = some fields)
    {field : Text} (hf : field ∈ fields) {u : Nat} (hu : u ∈ field) : u ∈ line := by
  have trimmed : ∀ pieces : List Text, (∀ piece ∈ pieces, ∀ v ∈ piece, v ∈ line) →
      field ∈ pieces.map trim → u ∈ line := by
    intro pieces hp hm
    obtain ⟨piece, hpiece, rfl⟩ := List.mem_map.mp hm
    exact hp piece hpiece u (mem_trim hu)
  simp only [splitPppoeLine] at h
  split at h
  · cases h
    exact trimmed _ (fun piece hp v hv => mem_splitRunsFrom hp hv) hf
  split at h
  · cases h
    exact trimmed _ (fun piece hp v hv => (not_mem_of_mem_splitOnP hp hv).1) hf
  split at h
  · cases h
    exact trimmed _ (fun piece hp v hv => (not_mem_of_mem_splitOnP hp hv).1) hf
  split at h
  · cases h
    exact trimmed _ (fun piece hp v hv => (not_mem_of_mem_splitOnP hp hv).1) hf
  split at h
  · cases h
    exact mem_trim (mem_splitRunsFrom hf hu)
  · cases h

/-- What an accepted row is: its fields are fields of the line, its VLAN in range. -/
structure RowOf (line : Text) (row : PppoeInputRow) : Prop where
  user_sub : ∀ u ∈ row.user, u ∈ line
  pass_sub : ∀ u ∈ row.pass, u ∈ line
  user_len : 1 ≤ row.user.length ∧ row.user.length ≤ 64
  pass_len : 1 ≤ row.pass.length ∧ row.pass.length ≤ 64
  vlan_range : ∀ v ∈ row.vlan, 1 ≤ v ∧ v ≤ 4094

theorem parseVlan_range {raw : Text} {vlan : Option Int} (h : parseVlan raw = .ok vlan) :
    ∀ v ∈ vlan, 1 ≤ v ∧ v ≤ 4094 := by
  unfold parseVlan at h
  split at h
  · cases h; simp
  split at h
  · split at h
    · cases h
    · cases h
      intro v hv
      cases hv
      omega
  · cases h

theorem parsePppoeFields_ok {line : Text} {row : PppoeInputRow}
    (h : parsePppoeFields line = .ok row) : RowOf line row := by
  unfold parsePppoeFields at h
  split at h
  · rename_i user pass more hs
    split at h
    · cases h
    split at h
    · cases h
    split at h
    · cases h
    rename_i hu hp
    cases hv : parseVlan (more.headD []) with
    | error e => rw [hv] at h; cases h
    | ok vlan =>
      rw [hv] at h
      cases h
      exact ⟨fun u hm => mem_splitPppoeLine hs (by simp) hm,
        fun u hm => mem_splitPppoeLine hs (by simp) hm,
        by simp only; omega, by simp only; omega, parseVlan_range hv⟩
  · cases h

theorem step_rows {st : PppoeListState} {entry : Text × Nat} {row : PppoeInputRow}
    (h : row ∈ (st.step entry).result.rows) : row ∈ st.result.rows ∨ RowOf (trim entry.1) row := by
  unfold PppoeListState.step at h
  simp only at h
  split at h
  · exact .inl h
  split at h
  · exact .inl h
  · rename_i r hr
    rcases List.mem_append.mp h with h | h
    · exact .inl h
    · rw [List.mem_singleton.mp h]
      exact .inr (parsePppoeFields_ok hr)

theorem foldl_rows {entries : List (Text × Nat)} {st : PppoeListState} {row : PppoeInputRow}
    (h : row ∈ (entries.foldl PppoeListState.step st).result.rows) :
    row ∈ st.result.rows ∨ ∃ entry ∈ entries, RowOf (trim entry.1) row := by
  induction entries generalizing st with
  | nil => exact .inl h
  | cons entry entries ih =>
    rcases ih h with h | ⟨e, he, hr⟩
    · rcases step_rows h with h | h
      · exact .inl h
      · exact .inr ⟨entry, by simp, h⟩
    · exact .inr ⟨e, List.mem_cons_of_mem _ he, hr⟩

/-- Every accepted row comes from one line of the text, so no field holds a line feed. -/
theorem parsePppoeList_row {text : Text} {row : PppoeInputRow}
    (h : row ∈ (parsePppoeList text).rows) : ∃ line ∈ splitLines text, RowOf (trim line) row := by
  rcases foldl_rows h with h | ⟨entry, he, hr⟩
  · cases h
  · exact ⟨entry.1, (List.mem_zipIdx' he).2 ▸ List.getElem_mem _, hr⟩

theorem not_lineFeed_of_mem_row {text : Text} {row : PppoeInputRow}
    (h : row ∈ (parsePppoeList text).rows) : 10 ∉ row.user ∧ 10 ∉ row.pass := by
  obtain ⟨line, hl, hr⟩ := parsePppoeList_row h
  exact ⟨fun hu => (mem_splitLines hl (mem_trim (hr.user_sub _ hu))).2 rfl,
    fun hp => (mem_splitLines hl (mem_trim (hr.pass_sub _ hp))).2 rfl⟩

end BoredManager.OpenWrt
