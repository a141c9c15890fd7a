import BoredManager.Container.CreateIncus
import Mathlib.Tactic.SplitIfs

/-! No text of an Incus form leaves its place in a job's commands, except a password of two lines. -/
namespace BoredManager.Container.Create
open BoredManager.Js BoredManager.Posix BoredManager.Shared

variable {plan : IncusPlan} {name username : Text}

/-! ### The host's words -/

/-- The arguments of `launchCommand`. -/
def launchArgs (plan : IncusPlan) (name : Text) : List Arg :=
  [.bare (js "incus"), .bare (js "launch"), .quoted plan.image, .quoted name] ++
    (if plan.vm then [.bare (js "--vm")] else []) ++
    (if plan.profile ≠ [] then [.bare (js "-p"), .quoted plan.profile] else []) ++
    (if plan.cpuLimit ≠ [] then [.bare (js "-c"), .quoted (js "limits.cpu=" ++ plan.cpuLimit)] else []) ++
    (if plan.memoryLimit ≠ [] then
      [.bare (js "-c"), .quoted (js "limits.memory=" ++ plan.memoryLimit)] else []) ++
    (if plan.tag ≠ [] then
      [.bare (js "-c"), .quoted (js "user.bored-manager.tags=" ++ plan.tag)] else []) ++
    (if plan.network ≠ [] then [.bare (js "-n"), .quoted plan.network] else []) ++
    if plan.storagePool ≠ [] then [.bare (js "-s"), .quoted plan.storagePool] else []

theorem ite_append_else {α : Type*} (c : Prop) [Decidable c] (a x : List α) :
    (if c then a ++ x else a) = a ++ if c then x else [] := by
  split
  · rfl
  · exact (List.append_nil a).symm

theorem launchCommand_eq (plan : IncusPlan) (name : Text) :
    launchCommand plan name = join [32] ((launchArgs plan name).map Arg.text) := by
  simp only [launchCommand, ite_append_else, launchArgs, List.map_append, apply_ite (List.map Arg.text)]
  rfl

theorem launchWords_eq (plan : IncusPlan) (name : Text) :
    (launchArgs plan name).map Arg.token = launchWords plan name := by
  simp only [launchArgs, launchWords, List.map_append, apply_ite (List.map Arg.token)]
  rfl

theorem fine_launchArgs (plan : IncusPlan) (name : Text) : ∀ a ∈ launchArgs plan name, a.Fine := by
  have hif : ∀ {c : Prop} [Decidable c] {l : List Arg}, (∀ a ∈ l, a.Fine) →
      ∀ a ∈ (if c then l else []), a.Fine := by
    intro c _ l hl
    split
    · exact hl
    · exact fun a ha => (by cases ha)
  have hpair : ∀ {flag value : Text}, Inert flag → ∀ a ∈ [Arg.bare flag, .quoted value], a.Fine :=
    fun hflag => List.forall_mem_cons.mpr ⟨hflag, List.forall_mem_singleton.mpr trivial⟩
  have hhead : ∀ a ∈ [Arg.bare (js "incus"), .bare (js "launch"), .quoted plan.image, .quoted name], a.Fine := by
    refine List.forall_mem_cons.mpr ⟨by decide, List.forall_mem_cons.mpr ⟨by decide, ?_⟩⟩
    exact List.forall_mem_cons.mpr ⟨trivial, List.forall_mem_singleton.mpr trivial⟩
  have hvm : ∀ a ∈ [Arg.bare (js "--vm")], a.Fine := List.forall_mem_singleton.mpr (by decide)
  simp only [launchArgs, List.forall_mem_append]
  exact ⟨⟨⟨⟨⟨⟨⟨hhead, hif hvm⟩, hif (hpair (by decide))⟩, hif (hpair (by decide))⟩, hif (hpair (by decide))⟩,
    hif (hpair (by decide))⟩, hif (hpair (by decide))⟩, hif (hpair (by decide))⟩

theorem tokens_launchCommand (plan : IncusPlan) (name : Text) :
    tokens (launchCommand plan name) = some (launchWords plan name) := by
  rw [launchCommand_eq, tokens_join (fine_launchArgs plan name), launchWords_eq]

/-- Words before a quoted text, and the words behind it. -/
theorem tokens_around {before after : Text} {first rest : List Token} (hbefore : tokens before = some first)
    (hquotes : OutsideQuotes before) (hcomment : ¬InComment before) (hafter : tokens after = some rest)
    (s : Text) : tokens (before ++ 32 :: (shQuote s ++ 32 :: after)) = some (first ++ protectedWord s :: rest) := by
  rw [tokens_append_blank hquotes hcomment, shQuote, tokens_singleQuote_blank, hbefore, hafter]
  rfl

theorem tokens_behind {before : Text} {first : List Token} (hbefore : tokens before = some first)
    (hquotes : OutsideQuotes before) (hcomment : ¬InComment before) (s : Text) :
    tokens (before ++ 32 :: shQuote s) = some (first ++ [protectedWord s]) := by
  rw [tokens_append_blank hquotes hcomment, shQuote, tokens_singleQuote, hbefore]
  rfl

theorem tokens_waitCommand (name : Text) : tokens (waitCommand name) = some (waitWords name) := by
  have hshape : waitCommand name =
      js "incus info" ++ 32 :: (shQuote name ++ 32 :: js "2>/dev/null | grep -i '^Status:'") := by
    have hbefore : js "incus info " = js "incus info" ++ [32] := by decide
    have hafter : js " 2>/dev/null | grep -i '^Status:'" = 32 :: js "2>/dev/null | grep -i '^Status:'" := by
      decide
    rw [waitCommand, hbefore, hafter, List.append_assoc, List.append_assoc]
    rfl
  have hfirst : tokens (js "incus info") = some [plainWord (js "incus"), plainWord (js "info")] := by decide
  have hrest : tokens (js "2>/dev/null | grep -i '^Status:'") = some [plainWord (js "2"),
      .operator (js ">"), plainWord (js "/dev/null"), .operator (js "|"), plainWord (js "grep"),
      plainWord (js "-i"), protectedWord (js "^Status:")] := by decide +kernel
  rw [hshape, tokens_around hfirst (by decide) (by decide) hrest]
  rfl

theorem tokens_incusExec : tokens (js "incus exec") = some [plainWord (js "incus"), plainWord (js "exec")] := by
  decide

theorem tokens_chpasswdCommand (name : Text) :
    tokens (chpasswdCommand name) = some (guestChpasswd name) := by
  have hshape : chpasswdCommand name = js "incus exec" ++ 32 :: (shQuote name ++ 32 :: js "-- chpasswd") := by
    have hbefore : js "incus exec " = js "incus exec" ++ [32] := by decide
    have hafter : js " -- chpasswd" = 32 :: js "-- chpasswd" := by decide
    rw [chpasswdCommand, hbefore, hafter, List.append_assoc, List.append_assoc]
    rfl
  have hrest : tokens (js "-- chpasswd") = some [plainWord (js "--"), plainWord (js "chpasswd")] := by decide
  rw [hshape, tokens_around tokens_incusExec (by decide) (by decide) hrest]
  rfl

theorem tokens_shellIn (name script : Text) : tokens (shellIn name script) = some (guestShell name script) := by
  have hshape : shellIn name script =
      js "incus exec" ++ 32 :: (shQuote name ++ 32 :: (js "-- sh -c" ++ 32 :: shQuote script)) := by
    have hbefore : js "incus exec " = js "incus exec" ++ [32] := by decide
    have hafter : js " -- sh -c " = 32 :: (js "-- sh -c" ++ [32]) := by decide
    rw [shellIn, hbefore, hafter]
    simp only [List.append_assoc, List.cons_append, List.nil_append]
  have hguest : tokens (js "-- sh -c") = some [plainWord (js "--"), plainWord (js "sh"), plainWord (js "-c")] := by
    decide
  rw [hshape, tokens_around tokens_incusExec (by decide) (by decide)
    (tokens_behind hguest (by decide) (by decide) script)]
  rfl

/-! ### The guest's words -/

theorem inert_of_userName (h : LINUX_USER_RE username = true) : Inert username := by
  cases username with
  | nil => cases h
  | cons u s =>
    simp only [LINUX_USER_RE, Bool.and_eq_true, Bool.or_eq_true, List.all_eq_true] at h
    obtain ⟨⟨hhead, -⟩, htail⟩ := h
    refine ⟨List.cons_ne_nil u s, List.forall_mem_cons.mpr ⟨?_, fun v hv => ?_⟩⟩
    · simp only [isInert, Bool.or_eq_true]
      exact hhead.elim (fun h => .inl (.inl (.inl (.inl (.inl (.inr h)))))) .inr
    · simp only [isInert, Bool.or_eq_true]
      obtain ((h | h) | h) | h := htail v hv
      · exact .inl (.inl (.inl (.inl (.inl (.inr h)))))
      · exact .inl (.inl (.inl (.inl (.inl (.inl h)))))
      · exact .inr h
      · exact .inl (.inl (.inl (.inr h)))

/-- Words before a bare word, and the words behind it. -/
theorem tokens_around_bare {before word after : Text} {first rest : List Token}
    (hbefore : tokens before = some first) (hquotes : OutsideQuotes before) (hcomment : ¬InComment before)
    (hword : Inert word) (hafter : tokens after = some rest) :
    tokens (before ++ 32 :: (word ++ 32 :: after)) = some (first ++ plainWord word :: rest) := by
  rw [tokens_append_blank hquotes hcomment, tokens_inert_blank hword, hbefore, hafter]
  rfl

theorem tokens_useraddScript (h : Inert username) :
    tokens (useraddScript username) = some (useraddWords username) := by
  have hshape : useraddScript username = js "useradd -m -s /bin/bash" ++ 32 :: (username ++
      32 :: (js "2>/dev/null || adduser -D" ++ 32 :: (username ++ 32 :: js "2>/dev/null; true"))) := by
    have hfirst : js "useradd -m -s /bin/bash " = js "useradd -m -s /bin/bash" ++ [32] := by decide
    have hmiddle : js " 2>/dev/null || adduser -D " = 32 :: (js "2>/dev/null || adduser -D" ++ [32]) := by
      decide
    have hlast : js " 2>/dev/null; true" = 32 :: js "2>/dev/null; true" := by decide
    rw [useraddScript, hfirst, hmiddle, hlast]
    simp only [List.append_assoc, List.cons_append, List.nil_append]
  have hfirst : tokens (js "useradd -m -s /bin/bash") = some [plainWord (js "useradd"),
      plainWord (js "-m"), plainWord (js "-s"), plainWord (js "/bin/bash")] := by decide +kernel
  have hmiddle : tokens (js "2>/dev/null || adduser -D") = some [plainWord (js "2"), .operator (js ">"),
      plainWord (js "/dev/null"), .operator (js "||"), plainWord (js "adduser"),
      plainWord (js "-D")] := by decide +kernel
  have hlast : tokens (js "2>/dev/null; true") = some [plainWord (js "2"), .operator (js ">"),
      plainWord (js "/dev/null"), .operator (js ";"), plainWord (js "true")] := by decide +kernel
  rw [hshape, tokens_around_bare hfirst (by decide +kernel) (by decide +kernel) h
    (tokens_around_bare hmiddle (by decide +kernel) (by decide +kernel) h hlast)]
  rfl

theorem inert_home (h : Inert username) (rest : Text) (hrest : ∀ u ∈ rest, isInert u = true) :
    Inert (js "/home/" ++ username ++ rest) := by
  refine ⟨by simp [js, units], fun u hu => ?_⟩
  obtain hu | hu := List.mem_append.mp hu
  · obtain hu | hu := List.mem_append.mp hu
    · exact (by decide : ∀ u ∈ js "/home/", isInert u = true) u hu
    · exact h.2 u hu
  · exact hrest u hu

theorem tokens_keyScript (h : Inert username) : tokens (keyScript username) = some (keyWords username) := by
  have hssh := inert_home h (js "/.ssh") (by decide)
  have hkeys := inert_home h (js "/.ssh/authorized_keys") (by decide)
  have hshape : keyScript username = js "mkdir -p" ++ 32 :: ((js "/home/" ++ username ++ js "/.ssh") ++
      32 :: (js "&& cat >>" ++ 32 :: ((js "/home/" ++ username ++ js "/.ssh/authorized_keys") ++
      32 :: (js "&& chmod 700" ++ 32 :: ((js "/home/" ++ username ++ js "/.ssh") ++
      32 :: (js "&& chmod 600" ++ 32 :: ((js "/home/" ++ username ++ js "/.ssh/authorized_keys") ++
      32 :: (js "&& chown -R" ++ 32 :: (username ++
      32 :: (js "/home/" ++ username ++ js "/.ssh")))))))))) := by
    have hmkdir : js "mkdir -p " = js "mkdir -p" ++ [32] := by decide
    have hcat : js "/.ssh && cat >> " = js "/.ssh" ++ 32 :: (js "&& cat >>" ++ [32]) := by decide
    have hkeys : js "/.ssh/authorized_keys && " = js "/.ssh/authorized_keys" ++ 32 :: js "&& " := by decide
    have hchmod : js "chmod 700 " = js "chmod 700" ++ [32] := by decide
    have hchmod' : js "/.ssh && chmod 600 " = js "/.ssh" ++ 32 :: (js "&& chmod 600" ++ [32]) := by decide
    have hchown : js "chown -R " = js "chown -R" ++ [32] := by decide
    have hand : js "&& chmod 700" = js "&& " ++ js "chmod 700" := by decide
    have hand' : js "&& chown -R" = js "&& " ++ js "chown -R" := by decide
    have hblank : js " " = [32] := rfl
    rw [keyScript, hmkdir, hcat, hkeys, hchmod, hchmod', hchown, hblank, hand, hand']
    simp only [List.append_assoc, List.cons_append, List.nil_append]
  have hmkdir : tokens (js "mkdir -p") = some [plainWord (js "mkdir"), plainWord (js "-p")] := by
    decide +kernel
  have hcat : tokens (js "&& cat >>") = some [.operator (js "&&"), plainWord (js "cat"),
      .operator (js ">>")] := by decide +kernel
  have hchmod : tokens (js "&& chmod 700") = some [.operator (js "&&"), plainWord (js "chmod"),
      plainWord (js "700")] := by decide +kernel
  have hchmod' : tokens (js "&& chmod 600") = some [.operator (js "&&"), plainWord (js "chmod"),
      plainWord (js "600")] := by decide +kernel
  have hchown : tokens (js "&& chown -R") = some [.operator (js "&&"), plainWord (js "chown"),
      plainWord (js "-R")] := by decide +kernel
  have htail := tokens_around_bare hchown (by decide +kernel) (by decide +kernel) h (tokens_inert hssh)
  have htail := tokens_around_bare hchmod' (by decide +kernel) (by decide +kernel) hkeys htail
  have htail := tokens_around_bare hchmod (by decide +kernel) (by decide +kernel) hssh htail
  have htail := tokens_around_bare hcat (by decide +kernel) (by decide +kernel) hkeys htail
  rw [hshape, tokens_around_bare hmkdir (by decide +kernel) (by decide +kernel) hssh htail]
  rfl

/-! ### The records -/

theorem inputLines_ended (line : Text) : inputLines (line ++ [10]) = line.splitOn 10 := by
  have hcut : (line ++ [10]).splitOn 10 = line.splitOn 10 ++ [[]] :=
    List.splitOn_append_cons_self (a := 10) line []
  rw [inputLines, hcut, List.getLast?_concat, List.dropLast_concat]
  rfl

theorem record_eq {user password : Text} (h : 58 ∉ user) : record (user ++ 58 :: password) = some (user, password) := by
  have hstop : ∀ u ∈ user, decide (u ≠ 58) = true := fun u hu => decide_eq_true fun heq => h (heq ▸ hu)
  have hdrop : (user ++ 58 :: password).dropWhile (· ≠ 58) = 58 :: password := by
    rw [List.dropWhile_append_of_pos hstop]
    rfl
  have htake : (user ++ 58 :: password).takeWhile (· ≠ 58) = user := by
    rw [List.takeWhile_append_of_pos hstop]
    exact List.append_nil user
  rw [record, hdrop, htake]

/-- The guest reads the one record exactly when the password is one line. -/
theorem chpasswdRecords_iff {user password : Text} (hcolon : 58 ∉ user) (hline : 10 ∉ user) :
    chpasswdRecords (user ++ 58 :: password ++ [10]) = [some (user, password)] ↔ 10 ∉ password := by
  have hmem : 10 ∈ user ++ 58 :: password ↔ 10 ∈ password := by simp [hline]
  rw [chpasswdRecords, inputLines_ended]
  constructor
  · intro h
    obtain ⟨line, hsingle⟩ := List.length_eq_one_iff.mp ((List.length_map _).symm.trans (congrArg List.length h))
    have hwhole : [10].intercalate ((user ++ 58 :: password).splitOn 10) = user ++ 58 :: password :=
      List.intercalate_splitOn 10
    rw [hsingle, List.intercalate_singleton] at hwhole
    rw [← hmem, ← hwhole]
    have hpiece : line ∈ (user ++ 58 :: password).splitOnP (· == 10) := by
      rw [← List.splitOn_eq_splitOnP, hsingle]
      exact List.mem_singleton_self line
    intro h10
    exact absurd (not_mem_of_mem_splitOnP hpiece h10).2 (by decide)
  · intro h
    rw [List.splitOn_eq_singleton (hmem.not.mpr h), List.map_singleton, record_eq hcolon]

/-! ### Both directions -/

theorem steps_of_one_line (huser : plan.username ≠ [] → 58 ∉ plan.username ∧ 10 ∉ plan.username)
    (h : plan.username ≠ [] → 10 ∉ plan.password) (name : Text) :
    List.Forall₂ (fun run meant => tokens run.command = some meant.1 ∧ Reads run.stdin meant.2)
      (provision plan name) (intended plan name) := by
  rw [provision, intended]
  refine List.rel_append ?_ ?_
  · split
    · rename_i hlogin
      refine List.rel_append ?_ ?_
      · refine .cons ⟨tokens_shellIn _ _, trivial⟩ (.cons ⟨tokens_chpasswdCommand name, ?_⟩ .nil)
        exact (chpasswdRecords_iff (huser hlogin).1 (huser hlogin).2).mpr (h hlogin)
      · split
        · exact .cons ⟨tokens_shellIn _ _, rfl⟩ .nil
        · exact .nil
    · exact .nil
  · split
    · exact .cons ⟨tokens_shellIn _ _, trivial⟩ .nil
    · exact .nil

theorem one_line_of_steps (huser : plan.username ≠ [] → 58 ∉ plan.username ∧ 10 ∉ plan.username)
    (h : List.Forall₂ (fun run meant => tokens run.command = some meant.1 ∧ Reads run.stdin meant.2)
      (provision plan name) (intended plan name)) (hlogin : plan.username ≠ []) : 10 ∉ plan.password := by
  rw [provision, intended, if_pos hlogin, if_pos hlogin] at h
  simp only [List.cons_append] at h
  cases h with
  | cons _ hrest =>
    cases hrest with
    | cons hlogged _ => exact (chpasswdRecords_iff (huser hlogin).1 (huser hlogin).2).mp hlogged.2

/-- What an accepted form has: instances to create, and no user or one with a proper name. -/
structure IncusAccepted (host : IncusHost) (input : FormValues) (plan : IncusPlan) : Prop where
  names : plan.names ≠ []
  userName : plan.username ≠ [] → LINUX_USER_RE plan.username = true
  username : plan.username = text (mergeTemplate input host.templates) "username"
  password : plan.password = raw (mergeTemplate input host.templates) "password"

theorem generatedNames_ne_nil {namePrefix : Text} {maxCreateCount : Int} {count : Option Int}
    (h : countErrors maxCreateCount count = []) :
    generatedNames namePrefix (min (count.getD 0) maxCreateCount).toNat ≠ [] := by
  rw [countErrors, ite_eq_right_iff] at h
  cases count with
  | none => exact absurd (h rfl) (List.cons_ne_nil _ _)
  | some n =>
    have hbounds : ¬(n < 1 ∨ maxCreateCount < n) := by
      intro hout
      refine absurd (h ?_) (by simp [js, units])
      simpa using hout
    intro hnil
    have hlength := congrArg List.length hnil
    simp only [generatedNames, List.length_map, List.length_range, List.length_nil, Option.getD_some] at hlength
    omega

theorem userName_of_loginErrors {minPasswordLen : ℚ} {password : Text}
    (h : loginErrors minPasswordLen username password = []) (hne : username ≠ []) :
    LINUX_USER_RE username = true := by
  rw [loginErrors, if_pos hne, List.append_eq_nil_iff] at h
  cases hname : LINUX_USER_RE username with
  | true => rfl
  | false =>
    rw [if_pos hname] at h
    cases h.1

theorem accepted_of_check {host : IncusHost} {input : FormValues} (h : host.check input = some plan) :
    IncusAccepted host input plan := by
  obtain ⟨-, h⟩ := Option.ite_none_left_eq_some.mp h
  obtain ⟨herrors, heq⟩ := Option.ite_none_right_eq_some.mp h
  simp only [List.append_eq_nil_iff] at herrors
  obtain ⟨⟨⟨⟨⟨⟨hcount, -⟩, -⟩, -⟩, hlogin⟩, -⟩, -⟩ := herrors
  rw [← Option.some_inj.mp heq]
  exact ⟨generatedNames_ne_nil hcount, userName_of_loginErrors hlogin, rfl, rfl⟩

theorem not_mem_of_inert {u : Nat} (h : Inert username) (hu : isInert u = false) : u ∉ username := by
  intro hmem
  rw [h.2 u hmem] at hu
  cases hu

/-- An accepted form is provisioned free of injection exactly when the password of its user, if it
names one, is one line. -/
theorem provision_injection_free_iff {host : IncusHost} {input : FormValues} {plan : IncusPlan}
    (h : host.check input = some plan) :
    (∀ name ∈ plan.names, InjectionFree plan name) ↔
      (text (mergeTemplate input host.templates) "username" ≠ [] →
        10 ∉ raw (mergeTemplate input host.templates) "password") := by
  have haccepted := accepted_of_check h
  have hinert : plan.username ≠ [] → Inert plan.username :=
    fun hne => inert_of_userName (haccepted.userName hne)
  have huser : plan.username ≠ [] → 58 ∉ plan.username ∧ 10 ∉ plan.username := fun hne =>
    ⟨not_mem_of_inert (hinert hne) (by decide), not_mem_of_inert (hinert hne) (by decide)⟩
  rw [← haccepted.username, ← haccepted.password]
  constructor
  · intro hfree
    obtain ⟨name, hname⟩ := List.exists_mem_of_ne_nil _ haccepted.names
    exact one_line_of_steps huser (hfree name hname).steps
  · intro hline name _
    exact {
      launch := tokens_launchCommand plan name
      wait := tokens_waitCommand name
      steps := steps_of_one_line huser hline name
      guest := fun hne => ⟨tokens_useraddScript (hinert hne), tokens_keyScript (hinert hne)⟩ }

/-- A machine with Incus, and nothing created on it. -/
def emptyIncus : IncusHost where
  maxCreateCount := 50
  minPasswordLen := 8
  templates := []
  incusPresent := true
  memTotalBytes := .fin 8589934592
  existingNames := []
  profiles := [js "default"]
  networks := []
  pools := []

/-- A form for one instance with a user. -/
def loginForm (password : String) : FormValues :=
  .ofList [(js "count", .num (.fin 1)), (js "namePrefix", .text (js "web-")),
    (js "image", .text (js "images:alpine/3.20")), (js "profile", .text (js "default")),
    (js "username", .text (js "ops")), (js "password", .text (js password)),
    (js "startupScript", .text (js "echo 'ready'"))]

theorem incusCheck_eq_some {host : IncusHost} {input : FormValues} (hpresent : host.incusPresent ≠ false)
    (h : (host.errorsAndPlan input).1 = []) : host.check input = some (host.errorsAndPlan input).2 :=
  (if_neg hpresent).trans (if_pos h)

theorem provision_injection_free_iff_ops :
    (∀ name ∈ (emptyIncus.errorsAndPlan (loginForm "don't look")).2.names,
      InjectionFree (emptyIncus.errorsAndPlan (loginForm "don't look")).2 name) ↔
    (text (mergeTemplate (loginForm "don't look") emptyIncus.templates) "username" ≠ [] →
      10 ∉ raw (mergeTemplate (loginForm "don't look") emptyIncus.templates) "password") :=
  provision_injection_free_iff (incusCheck_eq_some (by decide) (by decide +kernel))

/-- A password of two lines is accepted, and its second line sets another user's password. -/
theorem second_line_is_a_record :
    ∃ plan, emptyIncus.check (loginForm "hunter22\nroot:owned123") = some plan ∧
      ¬∀ name ∈ plan.names, InjectionFree plan name := by
  refine ⟨_, incusCheck_eq_some (by decide) (by decide +kernel), fun hfree => ?_⟩
  have hsteps := (hfree (js "web-001") (by decide +kernel)).steps
  have hline := one_line_of_steps (fun _ => by decide +kernel) hsteps (by decide +kernel)
  exact absurd (by decide +kernel) hline

end BoredManager.Container.Create
