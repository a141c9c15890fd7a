import BoredManager.Server.Connections
import Mathlib.Data.List.Forall2

/-! The saved connections are what an account remembers of its machines, where no two of them share
an id and the passwords are well-formed texts. -/
namespace BoredManager.Server.Connections
open BoredManager.Js BoredManager.Machine

variable {aes : Aes} {iv sudoIv : Iv}

/-! Related lists. -/

section
variable {α β : Type*} {R : α → β → Prop} {l : List α} {l' : List β} {p : α → Bool} {q : β → Bool}

theorem forall₂_find? (h : List.Forall₂ R l l') (hpq : ∀ a ∈ l, ∀ b, R a b → p a = q b) :
    Option.Rel R (l.find? p) (l'.find? q) := by
  induction h with
  | nil => exact .none
  | @cons a b l l' hab _ ih =>
    have hhead := hpq a List.mem_cons_self b hab
    rw [List.find?_cons, List.find?_cons, ← hhead]
    cases p a with
    | true => exact .some hab
    | false => exact ih fun a ha => hpq a (List.mem_cons_of_mem _ ha)

theorem forall₂_filter (h : List.Forall₂ R l l') (hpq : ∀ a ∈ l, ∀ b, R a b → p a = q b) :
    List.Forall₂ R (l.filter p) (l'.filter q) := by
  induction h with
  | nil => exact .nil
  | @cons a b l l' hab _ ih =>
    have hhead := hpq a List.mem_cons_self b hab
    have htail := ih fun a ha => hpq a (List.mem_cons_of_mem _ ha)
    rw [List.filter_cons, List.filter_cons, ← hhead]
    cases p a with
    | true => exact .cons hab htail
    | false => exact htail

theorem forall₂_mem (h : List.Forall₂ R l l') {a : α} (ha : a ∈ l) : ∃ b ∈ l', R a b := by
  induction h with
  | nil => cases ha
  | @cons c d l l' hcd _ ih =>
    obtain rfl | ha := List.mem_cons.mp ha
    · exact ⟨d, List.mem_cons_self, hcd⟩
    · obtain ⟨b, hb, hab⟩ := ih ha
      exact ⟨b, List.mem_cons_of_mem _ hb, hab⟩

theorem eraseP_eq_filter {κ : Type*} [DecidableEq κ] {key : α → κ} (h : (l.map key).Nodup) (k : κ) :
    l.eraseP (fun a => key a = k) = l.filter fun a => key a ≠ k := by
  induction l with
  | nil => rfl
  | cons a l ih =>
    obtain ⟨hnot, hrest⟩ := List.nodup_cons.mp h
    by_cases ha : key a = k
    · rw [List.eraseP_cons_of_pos (by simpa using ha), List.filter_cons_of_neg (by simpa using ha)]
      refine (List.filter_eq_self.mpr fun b hb => ?_).symm
      have hb' : key b ≠ k := fun heq => hnot (ha.trans heq.symm ▸ List.mem_map_of_mem hb)
      simpa using hb'
    · rw [List.eraseP_cons_of_neg (by simpa using ha), List.filter_cons_of_pos (by simpa using ha),
        ih hrest]

end

/-! A secret is read back. -/

theorem raw_bytes (aes : Aes) (iv : Iv) {plain : Bytes} (h : ∀ b ∈ plain, b < 256) :
    ∀ b ∈ iv.bytes ++ (aes.encrypt iv.bytes plain).1 ++ (aes.encrypt iv.bytes plain).2, b < 256 := by
  intro b hb
  obtain hb | hb := List.mem_append.mp hb
  · obtain hb | hb := List.mem_append.mp hb
    · exact iv.range b hb
    · exact aes.tag_bytes _ _ b hb
  · exact aes.body_bytes _ _ h b hb

theorem decrypt_encryptString {plain : Text} (hplain : Scalars plain) (hne : plain ≠ []) :
    decryptString aes (some (encryptString aes iv plain)) = some plain := by
  have hbytes : ∀ b ∈ utf8 plain, b < 256 := fun b hb => (mem_utf8 hplain hb).1
  have htag := aes.tag_length iv.bytes (utf8 plain)
  have hbody := aes.body_length iv.bytes (utf8 plain)
  have hdecrypt := aes.decrypt_encrypt iv.bytes (utf8 plain)
  have hraw := raw_bytes aes iv hbytes
  have hpos : 0 < (utf8 plain).length := List.length_pos_iff.mpr fun h => hne (utf8_eq_nil h hplain)
  have hiv := iv.length
  rw [decryptString, encryptString]
  generalize aes.encrypt iv.bytes (utf8 plain) = sealed at htag hbody hdecrypt hraw
  have hmarked : PREFIX.isPrefixOf (PREFIX ++ toBase64 (iv.bytes ++ sealed.1 ++ sealed.2)) :=
    List.isPrefixOf_iff_prefix.mpr (List.prefix_append _ _)
  have hlong : ¬(iv.bytes ++ sealed.1 ++ sealed.2).length ≤ IV_BYTES + TAG_BYTES := by
    rw [List.length_append, List.length_append, hiv, htag, hbody, IV_BYTES, TAG_BYTES]
    omega
  have hfirst : (iv.bytes ++ sealed.1 ++ sealed.2).take IV_BYTES = iv.bytes := by
    rw [List.append_assoc, IV_BYTES, ← hiv, List.take_left]
  have hsecond : ((iv.bytes ++ sealed.1 ++ sealed.2).drop IV_BYTES).take TAG_BYTES = sealed.1 := by
    rw [List.append_assoc, IV_BYTES, ← hiv, List.drop_left, TAG_BYTES, ← htag, List.take_left]
  have hthird : (iv.bytes ++ sealed.1 ++ sealed.2).drop (IV_BYTES + TAG_BYTES) = sealed.2 := by
    rw [IV_BYTES, TAG_BYTES, ← htag, ← hiv, ← List.length_append, List.drop_left]
  simp only [hmarked, if_true, List.drop_left, ofBase64_toBase64 hraw, if_neg hlong, hfirst, hsecond,
    hthird, hdecrypt, Option.map_some, utf8Text_utf8 hplain]

/-! What an account remembers. -/

structure Machine where
  username : Text
  host : Text
  port : Nat
deriving DecidableEq, Repr

def Machine.id (m : Machine) : Text := connectionId m.username m.host m.port

def Remembered.machine (cfg : Remembered) : Machine := ⟨cfg.username, cfg.host, cfg.port⟩

def StoredConnection.machine (c : StoredConnection) : Machine := ⟨c.username, c.host, c.port⟩

/-- A machine, the last passwords that were to be remembered for it since it is listed, and the
number of the call that remembered it last. -/
structure Saved where
  machine : Machine
  label : Text
  password : Option Text
  sudoPassword : Option Text
  last : Nat
deriving DecidableEq, Repr

/-- The last value that was to be remembered and was not empty. -/
def lastGiven (remember : Bool) (value old : Option Text) : Option Text :=
  match given value with
  | some plain => if remember then some plain else old
  | none => old

def remember (list : List Saved) (now : Nat) (cfg : Remembered) : List Saved :=
  let old := list.find? fun s => s.machine = cfg.machine
  let saved : Saved := {
    machine := cfg.machine
    label := (given cfg.label).getD cfg.machine.id
    password := lastGiven cfg.rememberPassword cfg.password (old.bind Saved.password)
    sudoPassword :=
      if cfg.clearSudoPassword then none
      else lastGiven cfg.rememberPassword cfg.sudoPassword (old.bind Saved.sudoPassword)
    last := now }
  (saved :: list.filter fun s => s.machine ≠ cfg.machine).take 15

def forget (list : List Saved) (id : Text) : List Saved := list.filter fun s => s.machine.id ≠ id

/-- The memories of the owners, and the number of calls so far. -/
structure Memory where
  lists : Text → List Saved
  calls : Nat

def Memory.step (m : Memory) : ConnectionEvent → Memory
  | .remember owner cfg _ _ => ⟨fun o =>
      if o = owner then remember (m.lists owner) m.calls cfg else m.lists o, m.calls + 1⟩
  | .delete owner id => ⟨fun o =>
      if o = owner then forget (m.lists owner) id else m.lists o, m.calls + 1⟩

def Memory.start : Memory := ⟨fun _ => [], 0⟩

/-! The lists by themselves: distinct ids, at most 15, the last remembered first. -/

def Distinct (list : List StoredConnection) : Prop :=
  (list.map fun c => c.id).Nodup ∧ list.length ≤ 15

theorem distinct_remember {list : List StoredConnection} {cfg : Remembered} (h : Distinct list) :
    Distinct (rememberConnection aes list cfg iv sudoIv) := by
  rw [rememberConnection, eraseP_eq_filter h.1]
  constructor
  · rw [List.map_take, List.map_cons]
    refine List.Nodup.sublist (List.take_sublist _ _) (List.nodup_cons.mpr ⟨fun hmem => ?_, ?_⟩)
    · obtain ⟨c, hc, heq⟩ := List.mem_map.mp hmem
      have hne := (List.mem_filter.mp hc).2
      simp only [heq, ne_eq, not_true_eq_false, decide_false] at hne
      cases hne
    · exact h.1.sublist (List.filter_sublist.map _)
  · exact List.length_take_le _ _

theorem distinct_delete {list : List StoredConnection} {id : Text} (h : Distinct list) :
    Distinct (deleteConnection list id) :=
  ⟨h.1.sublist (List.filter_sublist.map _), (List.length_filter_le _ _).trans h.2⟩

theorem distinct_step {w : World} {event : ConnectionEvent} (h : ∀ owner, Distinct (w owner))
    (owner : Text) : Distinct (w.step aes event owner) := by
  cases event with
  | remember o cfg iv sudoIv =>
    change Distinct (if owner = o then rememberConnection aes (w o) cfg iv sudoIv else w owner)
    split_ifs
    · exact distinct_remember (h o)
    · exact h owner
  | delete o id =>
    change Distinct (if owner = o then deleteConnection (w o) id else w owner)
    split_ifs
    · exact distinct_delete (h o)
    · exact h owner

theorem distinct_run (events : List ConnectionEvent) (owner : Text) :
    Distinct (run (World.step aes) World.start events owner) := by
  have hstart : ∀ owner, Distinct (World.start owner) := fun _ => ⟨List.nodup_nil, Nat.zero_le _⟩
  have hstep : ∀ (w : World) event, (∀ owner, Distinct (w owner)) → True →
      ∀ owner, Distinct (w.step aes event owner) := fun _ _ h _ => distinct_step h
  exact run_preserves hstep (guarded_of_forall (P := fun _ => True) (fun _ _ => trivial) _) hstart owner

/-- The last remembered first; no password is empty. -/
structure Ordered (list : List Saved) (calls : Nat) : Prop where
  order : list.Pairwise fun s t => t.last < s.last
  past : ∀ s ∈ list, s.last < calls
  password : ∀ s ∈ list, s.password ≠ some []

theorem given_ne_nil {value : Option Text} {plain : Text} (h : given value = some plain) :
    plain ≠ [] := by
  simpa using (Option.filter_eq_some_iff.mp h).2

theorem lastGiven_ne_nil {rememberPassword : Bool} {value old : Option Text} (h : old ≠ some []) :
    lastGiven rememberPassword value old ≠ some [] := by
  rw [lastGiven]
  split
  · rename_i plain hplain
    split_ifs
    · exact fun heq => given_ne_nil hplain (Option.some.inj heq)
    · exact h
  · exact h

theorem Ordered.sublist {list more : List Saved} {calls : Nat} (h : Ordered list calls)
    (hsub : more.Sublist list) : Ordered more (calls + 1) :=
  ⟨h.order.sublist hsub, fun s hs => (h.past s (hsub.subset hs)).trans (Nat.lt_succ_self _),
    fun s hs => h.password s (hsub.subset hs)⟩

theorem ordered_remember {list : List Saved} {calls : Nat} {cfg : Remembered}
    (h : Ordered list calls) : Ordered (remember list calls cfg) (calls + 1) := by
  have hrest := h.sublist (List.filter_sublist (p := fun s => decide (s.machine ≠ cfg.machine)))
  have hold : (list.find? fun s => s.machine = cfg.machine).bind Saved.password ≠ some [] := by
    intro heq
    obtain ⟨s, hs, hpassword⟩ := Option.bind_eq_some_iff.mp heq
    exact h.password s (List.mem_of_find?_eq_some hs) hpassword
  rw [remember]
  constructor
  · refine List.Pairwise.sublist (List.take_sublist _ _) (List.pairwise_cons.mpr ⟨?_, hrest.order⟩)
    exact fun s hs => h.past s (List.mem_of_mem_filter hs)
  · intro s hs
    obtain rfl | hs := List.mem_cons.mp (List.mem_of_mem_take hs)
    · exact Nat.lt_succ_self _
    · exact hrest.past s hs
  · intro s hs
    obtain rfl | hs := List.mem_cons.mp (List.mem_of_mem_take hs)
    · exact lastGiven_ne_nil hold
    · exact hrest.password s hs

theorem ordered_step {m : Memory} {event : ConnectionEvent}
    (h : ∀ owner, Ordered (m.lists owner) m.calls) (owner : Text) :
    Ordered ((m.step event).lists owner) (m.step event).calls := by
  cases event with
  | remember o cfg iv sudoIv =>
    change Ordered (if owner = o then remember (m.lists o) m.calls cfg else m.lists owner) (m.calls + 1)
    split_ifs
    · exact ordered_remember (h o)
    · exact (h owner).sublist (List.Sublist.refl _)
  | delete o id =>
    change Ordered (if owner = o then forget (m.lists o) id else m.lists owner) (m.calls + 1)
    split_ifs
    · exact (h o).sublist List.filter_sublist
    · exact (h owner).sublist (List.Sublist.refl _)

/-! What is stored is what is remembered. -/

/-- The entry holds what the account remembers. -/
structure Sealed (aes : Aes) (c : StoredConnection) (s : Saved) : Prop where
  id : c.id = s.machine.id
  machine : c.machine = s.machine
  label : c.label = s.label
  password : decryptString aes c.encryptedPassword = s.password
  sudoPassword : decryptString aes c.encryptedSudoPassword = s.sudoPassword

/-- No listed machine shares its id with the one remembered, unless it is that one, and what is to
be stored has no lone surrogates. -/
def Allowed (w : World) : ConnectionEvent → Prop
  | .remember owner cfg _ _ =>
    (∀ c ∈ w owner, c.id = cfg.machine.id → c.machine = cfg.machine) ∧
      (cfg.rememberPassword → (∀ plain, given cfg.password = some plain → Scalars plain) ∧
        (cfg.clearSudoPassword = false → ∀ plain, given cfg.sudoPassword = some plain → Scalars plain))
  | .delete _ _ => True

theorem decrypt_replaced {rememberPassword : Bool} {value stored old : Option Text}
    (hstored : decryptString aes stored = old)
    (hvalue : rememberPassword → ∀ plain, given value = some plain → Scalars plain) :
    decryptString aes (replaced aes iv rememberPassword value stored) =
      lastGiven rememberPassword value old := by
  rw [replaced, lastGiven]
  cases hgiven : given value with
  | none => exact hstored
  | some plain =>
    cases rememberPassword with
    | true => exact decrypt_encryptString (hvalue rfl plain hgiven) (given_ne_nil hgiven)
    | false => exact hstored

theorem decrypt_bind {found : Option StoredConnection} {old : Option Saved}
    (h : Option.Rel (Sealed aes) found old) :
    decryptString aes (found.bind StoredConnection.encryptedPassword) = old.bind Saved.password ∧
      decryptString aes (found.bind StoredConnection.encryptedSudoPassword) =
        old.bind Saved.sudoPassword := by
  cases h with
  | none => exact ⟨rfl, rfl⟩
  | some hsealed => exact ⟨hsealed.password, hsealed.sudoPassword⟩

theorem sealed_remember {list : List StoredConnection} {memory : List Saved} {cfg : Remembered}
    {calls : Nat} (hdistinct : Distinct list) (h : List.Forall₂ (Sealed aes) list memory)
    (hids : ∀ c ∈ list, c.id = cfg.machine.id → c.machine = cfg.machine)
    (htexts : cfg.rememberPassword → (∀ plain, given cfg.password = some plain → Scalars plain) ∧
      (cfg.clearSudoPassword = false →
        ∀ plain, given cfg.sudoPassword = some plain → Scalars plain)) :
    List.Forall₂ (Sealed aes) (rememberConnection aes list cfg iv sudoIv)
      (remember memory calls cfg) := by
  -- an entry has the id exactly if it is the machine's
  have hsame : ∀ c ∈ list, ∀ s, Sealed aes c s →
      (c.id = cfg.machine.id ↔ s.machine = cfg.machine) := by
    intro c hc s hs
    constructor
    · exact fun hid => hs.machine.symm.trans (hids c hc hid)
    · intro hmachine
      rw [hs.id, hmachine]
  have hfind := forall₂_find? (p := fun c => decide (c.id = cfg.machine.id))
    (q := fun s => decide (s.machine = cfg.machine)) h
    fun c hc s hs => decide_eq_decide.mpr (hsame c hc s hs)
  obtain ⟨hpassword, hsudo⟩ := decrypt_bind hfind
  rw [rememberConnection, remember, eraseP_eq_filter hdistinct.1]
  apply List.forall₂_take
  refine .cons ⟨rfl, rfl, rfl, ?_, ?_⟩ ?_
  · exact decrypt_replaced hpassword fun hremember => (htexts hremember).1
  · cases hclear : cfg.clearSudoPassword with
    | true => rfl
    | false => exact decrypt_replaced hsudo fun hremember => (htexts hremember).2 hclear
  · exact forall₂_filter h fun c hc s hs => decide_eq_decide.mpr (not_congr (hsame c hc s hs))

theorem sealed_delete {list : List StoredConnection} {memory : List Saved} {id : Text}
    (h : List.Forall₂ (Sealed aes) list memory) :
    List.Forall₂ (Sealed aes) (deleteConnection list id) (forget memory id) :=
  forall₂_filter h fun c _ s hs => decide_eq_decide.mpr (by rw [hs.id])

/-- The stored lists and the memories, side by side. -/
structure Refines (aes : Aes) (w : World) (m : Memory) : Prop where
  distinct : ∀ owner, Distinct (w owner)
  ordered : ∀ owner, Ordered (m.lists owner) m.calls
  stored : ∀ owner, List.Forall₂ (Sealed aes) (w owner) (m.lists owner)

theorem refines_step {w : World} {m : Memory} {event : ConnectionEvent} (h : Refines aes w m)
    (hok : Allowed w event) : Refines aes (w.step aes event) (m.step event) := by
  refine ⟨distinct_step h.distinct, ordered_step h.ordered, fun owner => ?_⟩
  cases event with
  | remember o cfg iv sudoIv =>
    by_cases ho : owner = o
    · subst ho
      simp only [World.step, Memory.step, if_true]
      exact sealed_remember (h.distinct owner) (h.stored owner) hok.1 hok.2
    · simp only [World.step, Memory.step, if_neg ho]
      exact h.stored owner
  | delete o id =>
    by_cases ho : owner = o
    · subst ho
      simp only [World.step, Memory.step, if_true]
      exact sealed_delete (h.stored owner)
    · simp only [World.step, Memory.step, if_neg ho]
      exact h.stored owner

theorem refines_run {events : List ConnectionEvent} {w : World} {m : Memory} (h : Refines aes w m)
    (hok : Guarded (World.step aes) Allowed w events) :
    Refines aes (run (World.step aes) w events) (run Memory.step m events) := by
  induction events generalizing w m with
  | nil => exact h
  | cons event events ih => exact ih (refines_step h hok.1) hok.2

/-! What the look-ups return. -/

theorem find?_of_nodup {list : List StoredConnection} (h : (list.map fun c => c.id).Nodup)
    {c : StoredConnection} (hc : c ∈ list) : list.find? (fun d => d.id = c.id) = some c := by
  induction list with
  | nil => cases hc
  | cons d list ih =>
    obtain ⟨hnot, hrest⟩ := List.nodup_cons.mp h
    obtain rfl | hc := List.mem_cons.mp hc
    · exact List.find?_cons_of_pos (by simp)
    · have hne : d.id ≠ c.id := fun heq => hnot (List.mem_map.mpr ⟨c, hc, heq.symm⟩)
      rw [List.find?_cons_of_neg (by simpa using hne)]
      exact ih hrest hc

theorem given_eq_self {value : Option Text} (h : value ≠ some []) : given value = value := by
  cases value with
  | none => rfl
  | some text =>
    have hne : text ≠ [] := fun heq => h (congrArg some heq)
    exact Option.filter_some_pos (by simpa using hne)

theorem config_of_saved (s : Saved) {list : List StoredConnection} {c : StoredConnection}
    (hfind : list.find? (fun d => d.id = s.machine.id) = some c) (hs : Sealed aes c s)
    (hpassword : s.password ≠ some []) : getSavedConnectionConfig aes list s.machine.id =
      s.password.map fun password => ⟨s.label, s.machine.host, s.machine.port, s.machine.username,
        password, s.sudoPassword⟩ := by
  have hmachine := hs.machine
  rw [getSavedConnectionConfig, hfind]
  simp only [hs.password, given_eq_self hpassword, hs.label, hs.sudoPassword, ← hmachine]
  cases s.password <;> rfl

/-- In every run the ids of an owner's list are distinct, and there are at most 15. Where no listed
machine shares its id with another that is remembered, and remembered passwords are well-formed,
the list holds what the owner remembers, the last remembered first, and the look-ups return that of
the machine with the id and of no other. -/
theorem saved_connections (aes : Aes) (events : List ConnectionEvent) :
    (∀ owner, Distinct (run (World.step aes) World.start events owner)) ∧
    (Guarded (World.step aes) Allowed World.start events → ∀ owner,
      ((run Memory.step Memory.start events).lists owner).Pairwise (fun s t => t.last < s.last) ∧
      List.Forall₂ (Sealed aes) (run (World.step aes) World.start events owner)
        ((run Memory.step Memory.start events).lists owner) ∧
      (∀ s ∈ (run Memory.step Memory.start events).lists owner,
        getSavedCredentials aes (run (World.step aes) World.start events owner) s.machine.id =
          some ⟨s.password, s.sudoPassword⟩ ∧
        getSavedConnectionConfig aes (run (World.step aes) World.start events owner) s.machine.id =
          s.password.map fun password => ⟨s.label, s.machine.host, s.machine.port,
            s.machine.username, password, s.sudoPassword⟩) ∧
      ∀ id credentials,
        getSavedCredentials aes (run (World.step aes) World.start events owner) id = some credentials →
        ∃ s ∈ (run Memory.step Memory.start events).lists owner, s.machine.id = id ∧
          credentials = ⟨s.password, s.sudoPassword⟩) := by
  refine ⟨distinct_run events, fun hok owner => ?_⟩
  have hstart : Refines aes World.start Memory.start :=
    ⟨fun _ => ⟨List.nodup_nil, Nat.zero_le _⟩,
      fun _ => ⟨List.Pairwise.nil, fun _ hs => (by cases hs), fun _ hs => (by cases hs)⟩, fun _ => .nil⟩
  obtain ⟨hdistinct, hordered, hstored⟩ := refines_run hstart hok
  refine ⟨(hordered owner).order, hstored owner, fun s hs => ?_, fun id credentials hget => ?_⟩
  · have hflip : List.Forall₂ (flip (Sealed aes)) _ _ := (hstored owner).flip
    obtain ⟨c, hc, hsealed⟩ := forall₂_mem hflip hs
    have hfind := find?_of_nodup (hdistinct owner).1 hc
    rw [hsealed.id] at hfind
    refine ⟨?_, config_of_saved s hfind hsealed ((hordered owner).password s hs)⟩
    rw [getSavedCredentials, hfind, Option.map_some, hsealed.password, hsealed.sudoPassword]
  · rw [getSavedCredentials] at hget
    obtain ⟨c, hfind, rfl⟩ := Option.map_eq_some_iff.mp hget
    have hc := List.mem_of_find?_eq_some hfind
    have hid : c.id = id := by simpa using List.find?_some hfind
    obtain ⟨s, hs, hsealed⟩ := forall₂_mem (hstored owner) hc
    exact ⟨s, hs, hsealed.id.symm.trans hid, by rw [hsealed.password, hsealed.sudoPassword]⟩

/-! Two machines with one id, and a password with a lone surrogate. -/

def firstIv : Iv := ⟨List.replicate 12 1, List.length_replicate, by decide⟩
def loneIv : Iv := ⟨List.replicate 12 3, List.length_replicate, by decide⟩

/-- `secret` and U+FFFD under these ivs; everything else stays as it is, with a tag of zeros. -/
def sampleEncrypt (iv plain : Bytes) : Bytes × Bytes :=
  if iv = firstIv.bytes ∧ plain = [115, 101, 99, 114, 101, 116] then
    ([212, 208, 208, 10, 164, 95, 61, 140, 113, 103, 186, 193, 43, 21, 58, 174],
      [4, 166, 134, 71, 13, 241])
  else if iv = loneIv.bytes ∧ plain = [239, 191, 189] then
    ([139, 247, 141, 112, 26, 163, 115, 126, 5, 82, 36, 72, 46, 146, 182, 18], [1, 244, 129])
  else (List.replicate 16 0, plain)

def sampleDecrypt (_iv tag body : Bytes) : Option Bytes :=
  if tag = [212, 208, 208, 10, 164, 95, 61, 140, 113, 103, 186, 193, 43, 21, 58, 174] then
    some [115, 101, 99, 114, 101, 116]
  else if tag = [139, 247, 141, 112, 26, 163, 115, 126, 5, 82, 36, 72, 46, 146, 182, 18] then
    some [239, 191, 189]
  else some body

def sampleAes : Aes where
  encrypt := sampleEncrypt
  decrypt := sampleDecrypt
  decrypt_encrypt iv plain := by
    rw [sampleEncrypt]
    split_ifs with hfirst hlone
    · rw [hfirst.2]
      rfl
    · rw [hlone.2]
      rfl
    · rfl
  tag_length iv plain := by
    rw [sampleEncrypt]
    split_ifs <;> rfl
  body_length iv plain := by
    rw [sampleEncrypt]
    split_ifs with hfirst hlone
    · rw [hfirst.2]
      rfl
    · rw [hlone.2]
      rfl
    · rfl
  tag_bytes iv plain := by
    rw [sampleEncrypt]
    split_ifs
    · decide
    · decide
    · exact (by decide : ∀ b ∈ List.replicate 16 0, b < 256)
  body_bytes iv plain h := by
    rw [sampleEncrypt]
    split_ifs
    · decide
    · decide
    · exact h

def savedFirst : Remembered where
  host := js "c"
  port := 22
  username := js "a@b"
  label := none
  password := some (js "secret")
  sudoPassword := none
  clearSudoPassword := false
  rememberPassword := true

/-- The same id, from another user on another host, and no password. -/
def savedSecond : Remembered :=
  { savedFirst with host := js "b@c", username := js "a", password := none }

theorem other_machine_gets_password :
    getSavedConnectionConfig sampleAes (run (World.step sampleAes) World.start
        [.remember (js "bored-admin") savedFirst firstIv firstIv,
          .remember (js "bored-admin") savedSecond firstIv firstIv] (js "bored-admin"))
        (js "a@b@c:22") =
      some ⟨js "a@b@c:22", js "b@c", 22, js "a", js "secret", none⟩ ∧
    getSavedCredentials sampleAes (run (World.step sampleAes) World.start
        [.remember (js "bored-admin") { savedFirst with password := some [55296] } loneIv loneIv]
        (js "bored-admin")) (js "a@b@c:22") = some ⟨some [65533], none⟩ := by
  constructor <;> decide +kernel

end BoredManager.Server.Connections
