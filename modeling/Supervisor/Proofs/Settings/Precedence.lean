import Mathlib.Data.List.Basic
import Supervisor.Proofs.Settings.Lines

/-!
# The last assignment stands

Reading settings is putting assignments to seven separate places, one after the other.
`Settings.current` looks at one of these places, and `Settings.current_foldl` says what a list of
assignments leaves there: what its last assignment to that place brought, whatever the others are.

From the text, `Leaves` says what a setting comes to in terms of the lines that spell a well-formed
value for its key and of what the last such value is worth, and `Settings.parse_leaves` that it
does. Texts that agree, key by key, on the lines that spell a value for the key come to the same
settings (`Settings.parse_eq_of_linesFor`).
-/

set_option autoImplicit false
set_option relaxedAutoImplicit false

namespace Supervisor

/-! ### Texts and their lines -/

theorem linesOf_eq_splitOn (cs : List Char) : linesOf cs = cs.splitOn '\n' := by
  induction cs with
  | nil => rfl
  | cons c cs ih =>
    rw [List.splitOn_cons_eq_if_modifyHead, ← ih, linesOf, List.foldr_cons, ← linesOf]
    by_cases feed : c = '\n'
    · simp [feed]
    · rw [if_neg feed, if_neg (by simpa using feed)]
      cases lines : linesOf cs with
      | nil => exact absurd (ih ▸ lines) (List.splitOn_ne_nil '\n' cs)
      | cons line rest => rfl

theorem linesOf_append_cons (cs ds : List Char) :
    linesOf (cs ++ '\n' :: ds) = linesOf cs ++ linesOf ds := by
  simp only [linesOf_eq_splitOn, List.splitOn_append_cons_self]

theorem feed_not_mem_of_mem_linesOf {cs line : List Char} (known : line ∈ linesOf cs) :
    '\n' ∉ line := by
  induction cs generalizing line with
  | nil =>
    cases List.mem_singleton.mp known
    simp
  | cons c cs ih =>
    rw [linesOf_eq_splitOn, List.splitOn_cons_eq_if_modifyHead, ← linesOf_eq_splitOn] at known
    split at known
    next =>
      rcases List.mem_cons.mp known with rfl | known
      · simp
      · exact ih known
    next feed =>
      cases lines : linesOf cs with
      | nil => simp [lines] at known
      | cons first rest =>
        rw [lines] at known
        rcases List.mem_cons.mp known with rfl | known
        · rw [List.mem_cons, not_or]
          exact ⟨fun same ↦ feed (by simp [← same]), ih (by simp [lines])⟩
        · exact ih (by simp [lines, known])

namespace Settings

/-- The text of some lines. -/
def textOf (lines : List (List Char)) : String :=
  String.ofList (['\n'].intercalate lines)

/-- A text is read line by line, also where some of the lines are more than one. -/
theorem assignments_textOf (lines : List (List Char)) :
    assignments (textOf lines).toList = lines.flatMap assignments := by
  rw [textOf, String.toList_ofList]
  induction lines with
  | nil => decide
  | cons line rest ih =>
    cases rest with
    | nil => simp
    | cons next rest =>
      rw [List.intercalate_cons_cons, List.append_assoc, List.singleton_append, List.flatMap_cons,
        ← ih, assignments, linesOf_append_cons, List.filterMap_append]
      rfl

theorem assignments_of_feed_not_mem {line : List Char} (single : '\n' ∉ line) :
    assignments line = (Assignment.ofLine? line).toList := by
  rw [assignments, linesOf_eq_splitOn, List.splitOn_eq_singleton single]
  cases read : Assignment.ofLine? line <;> simp [read]

theorem parse_append_feed (text more : String) :
    parse (text ++ "\n" ++ more) =
      (assignments more.toList).foldl Assignment.apply (parse text) := by
  have joined : (text ++ "\n" ++ more).toList = text.toList ++ '\n' :: more.toList := by simp
  rw [parse, joined, assignments, linesOf_append_cons, List.filterMap_append, List.foldl_append]
  rfl

theorem parse_textOf (lines : List (List Char)) :
    parse (textOf lines) = (lines.flatMap assignments).foldl Assignment.apply standard := by
  rw [parse, assignments_textOf]

/-! ### Seven places -/

/-- What a setting is, as the assignment that makes it so. -/
def current (s : Settings) : SettingKey → Assignment
  | .pingTimeout => .pingTimeout s.pingTimeout
  | .pingAttempts => .pingAttempts s.pingAttempts
  | .terminateSignal => .terminateSignal s.terminateSignal
  | .roundRobinPriority => .roundRobinPriority s.roundRobinPriority
  | .defaultPolicy => .defaultPolicy s.schedule.policy
  | .defaultPriority => .defaultPriority s.schedule.priority
  | .maxSessions => .maxSessions s.maxSessions

theorem ext_current {s t : Settings} (same : ∀ key, s.current key = t.current key) : s = t := by
  obtain ⟨_, _, _, _, ⟨_, _⟩, _⟩ := s
  obtain ⟨_, _, _, _, ⟨_, _⟩, _⟩ := t
  have policy := same .defaultPolicy
  have priority := same .defaultPriority
  cases same .pingTimeout
  cases same .pingAttempts
  cases same .terminateSignal
  cases same .roundRobinPriority
  cases same .maxSessions
  cases policy
  cases priority
  rfl

theorem current_apply (s : Settings) (a : Assignment) (key : SettingKey) :
    (a.apply s).current key = if a.key = key then a else s.current key := by
  cases a <;> cases key <;> rfl

/-- What becomes of a setting depends on what it was and on the assignments to it. -/
theorem current_foldl (as : List Assignment) (s : Settings) (key : SettingKey) :
    (as.foldl Assignment.apply s).current key =
      (as.filter fun a ↦ a.key = key).foldl (fun _ a ↦ a) (s.current key) := by
  induction as generalizing s with
  | nil => rfl
  | cons a as ih =>
    rw [List.foldl_cons, ih, current_apply, List.filter_cons]
    by_cases same : a.key = key <;> simp [same]

end Settings

/-! ### What the lines leave -/

/-- The line gives the setting a well-formed value. -/
def Gives (key : SettingKey) (v line : List Char) : Prop :=
  Spells key v line ∧ ∃ a, Worth key v a

/-- The last line to give the setting a well-formed value gives this one. -/
def LastGiven (key : SettingKey) (v : List Char) (lines : List (List Char)) : Prop :=
  ∃ before line after, lines = before ++ line :: after ∧ Gives key v line ∧
    ∀ later ∈ after, ∀ v, ¬ Gives key v later

/-- What the lines leave a setting at. -/
inductive Leaves (key : SettingKey) (lines : List (List Char)) : Assignment → Prop
  | standard (untouched : ∀ line ∈ lines, ∀ v, ¬ Gives key v line) :
      Leaves key lines (Settings.standard.current key)
  | last {v : List Char} {a : Assignment} (given : LastGiven key v lines)
      (worth : Worth key v a) : Leaves key lines a

section

variable {key : SettingKey} {v line : List Char} {a : Assignment} {lines : List (List Char)}

theorem filter_key_eq_nil (singles : ∀ line ∈ lines, '\n' ∉ line)
    (untouched : ∀ line ∈ lines, ∀ v, ¬ Gives key v line) :
    (lines.filterMap Assignment.ofLine?).filter (fun a ↦ a.key = key) = [] := by
  refine List.filter_eq_nil_iff.mpr fun a made same ↦ ?_
  obtain ⟨line, known, read⟩ := List.mem_filterMap.mp made
  obtain ⟨v, spelled, worth⟩ := (ofLine?_eq_some_iff (singles line known)).mp read
  cases decide_eq_true_eq.mp same
  exact untouched line known v ⟨spelled, a, worth⟩

/-- Either no line gives the setting a value or there is a last one to do so. -/
theorem exists_leaves (key : SettingKey) (lines : List (List Char)) :
    ∃ a, Leaves key lines a := by
  induction lines with
  | nil => exact ⟨_, .standard (by simp)⟩
  | cons line lines ih =>
    obtain ⟨a, leaves⟩ := ih
    cases leaves with
    | last given worth =>
      obtain ⟨before, found, after, rfl, gives⟩ := given
      exact ⟨a, .last ⟨line :: before, found, after, rfl, gives⟩ worth⟩
    | standard untouched =>
      by_cases here : ∃ v, Gives key v line
      · obtain ⟨v, spelled, a, worth⟩ := here
        exact ⟨a, .last ⟨[], line, lines, rfl, ⟨spelled, a, worth⟩, untouched⟩ worth⟩
      · refine ⟨_, .standard fun l known ↦ ?_⟩
        rcases List.mem_cons.mp known with rfl | known
        · exact not_exists.mp here
        · exact untouched l known

theorem Leaves.current (singles : ∀ line ∈ lines, '\n' ∉ line) (leaves : Leaves key lines a) :
    ((lines.filterMap Assignment.ofLine?).foldl Assignment.apply Settings.standard).current key =
      a := by
  rw [Settings.current_foldl]
  cases leaves with
  | standard untouched =>
    rw [filter_key_eq_nil singles untouched]
    rfl
  | last given worth =>
    obtain ⟨before, line, after, rfl, ⟨spelled, -⟩, later⟩ := given
    obtain rfl := worth.key_eq
    have read := (ofLine?_eq_some_iff (singles line (by simp))).mpr ⟨_, spelled, worth⟩
    rw [List.filterMap_append, List.filterMap_cons_some read, List.filter_append,
      List.filter_cons_of_pos (by simp),
      filter_key_eq_nil (fun line known ↦ singles line (by simp [known])) later]
    simp

/-- A setting is what the lines of the text leave it at. -/
theorem Settings.parse_leaves (text : String) (key : SettingKey) (a : Assignment) :
    Leaves key (linesOf text.toList) a ↔ (parse text).current key = a := by
  have singles : ∀ line ∈ linesOf text.toList, '\n' ∉ line :=
    fun _ known ↦ feed_not_mem_of_mem_linesOf known
  constructor
  · exact Leaves.current singles
  · rintro rfl
    obtain ⟨a, leaves⟩ := exists_leaves key (linesOf text.toList)
    have same : (parse text).current key = a := leaves.current singles
    rwa [same]

end

namespace Settings

/-! ### More lines and fewer -/

theorem makes_linesOf {more : String} {as : List Assignment} :
    Makes (linesOf more.toList) as ↔ assignments more.toList = as :=
  makes_iff fun _ known ↦ feed_not_mem_of_mem_linesOf known

theorem assignments_textOf_of_singles {lines : List (List Char)}
    (singles : ∀ line ∈ lines, '\n' ∉ line) :
    assignments (textOf lines).toList = lines.filterMap Assignment.ofLine? := by
  rw [assignments_textOf, List.filterMap_eq_flatMap_toList]
  exact List.flatMap_congr fun line known ↦ assignments_of_feed_not_mem (singles line known)

theorem parse_remove {text : String} {before after : List (List Char)} {line : List Char}
    (lines : linesOf text.toList = before ++ line :: after) (passed : PassedOver line) :
    parse (textOf (before ++ after)) = parse text := by
  have single {l : List Char} (known : l ∈ before ++ line :: after) : '\n' ∉ l :=
    feed_not_mem_of_mem_linesOf (lines ▸ known)
  have silent := (passedOver_iff (single (by simp))).mp passed
  have singles : ∀ l ∈ before ++ after, '\n' ∉ l := by
    intro l known
    apply single
    rcases List.mem_append.mp known with known | known <;> simp [known]
  rw [parse, parse, assignments_textOf_of_singles singles, assignments, lines,
    List.filterMap_append, List.filterMap_append, List.filterMap_cons_none silent]

/-! ### Changing the order of lines -/

open Classical in
/-- The lines that spell a value for the key, whether or not it is well formed. -/
noncomputable def linesFor (key : SettingKey) (lines : List (List Char)) : List (List Char) :=
  lines.filter fun line ↦ ∃ v, Spells key v line

/-- The key that a line names, whether or not it gives it a well-formed value. -/
def namedKey? (line : List Char) : Option SettingKey :=
  (keyValue? line).map Prod.fst

theorem namedKey?_eq_some_iff {line : List Char} {key : SettingKey} (single : '\n' ∉ line) :
    namedKey? line = some key ↔ ∃ v, Spells key v line := by
  simp only [namedKey?, spells_iff single, Option.map_eq_some_iff, Prod.exists, exists_and_right,
    exists_eq_right]

theorem linesFor_eq {lines : List (List Char)} (singles : ∀ line ∈ lines, '\n' ∉ line)
    (key : SettingKey) : linesFor key lines = lines.filter fun line ↦ namedKey? line = some key :=
  List.filter_congr fun line known ↦
    decide_eq_decide.mpr (namedKey?_eq_some_iff (singles line known)).symm

theorem filter_key_filterMap {lines : List (List Char)} (singles : ∀ line ∈ lines, '\n' ∉ line)
    (key : SettingKey) : (lines.filterMap Assignment.ofLine?).filter (fun a ↦ a.key = key) =
      (linesFor key lines).filterMap Assignment.ofLine? := by
  rw [linesFor_eq singles]
  induction lines with
  | nil => rfl
  | cons line lines ih =>
    obtain ⟨single, rest⟩ := List.forall_mem_cons.mp singles
    cases read : Assignment.ofLine? line with
    | none =>
      rw [List.filterMap_cons_none read, ih rest, List.filter_cons]
      split
      next => rw [List.filterMap_cons_none read]
      next => rfl
    | some a =>
      obtain ⟨v, spelled, -⟩ := (ofLine?_eq_some_iff single).mp read
      rw [List.filterMap_cons_some read, List.filter_cons, List.filter_cons, ih rest,
        (namedKey?_eq_some_iff single).mpr ⟨v, spelled⟩]
      by_cases same : a.key = key
      · simp [same, read]
      · simp [same]

theorem parse_eq_of_linesFor {s t : String}
    (same : ∀ key, linesFor key (linesOf s.toList) = linesFor key (linesOf t.toList)) :
    parse s = parse t := by
  have singles (text : String) : ∀ line ∈ linesOf text.toList, '\n' ∉ line :=
    fun _ known ↦ feed_not_mem_of_mem_linesOf known
  refine ext_current fun key ↦ ?_
  rw [parse, parse, current_foldl, current_foldl, assignments, assignments,
    filter_key_filterMap (singles s), filter_key_filterMap (singles t), same]

/-- The last line to give a setting a well-formed value decides what it is, whatever the others
are. So more lines come to their assignments, made after those before them; a line that makes none
can be taken away; and only the order of lines for the same key counts. -/
theorem last_line_decides (text : String) :
    (∀ key a, Leaves key (text.toList.splitOn '\n') a ↔ (parse text).current key = a) ∧
    (∀ more : String, (∃ as, Makes (more.toList.splitOn '\n') as) ∧
      ∀ as, Makes (more.toList.splitOn '\n') as →
        parse (text ++ "\n" ++ more) = as.foldl Assignment.apply (parse text)) ∧
    (∀ before line after, text.toList.splitOn '\n' = before ++ line :: after → PassedOver line →
      parse (textOf (before ++ after)) = parse text) ∧
    ∀ other : String, (∀ key, linesFor key (other.toList.splitOn '\n') =
        linesFor key (text.toList.splitOn '\n')) → parse other = parse text := by
  simp only [← linesOf_eq_splitOn]
  refine ⟨parse_leaves text, fun more ↦ ⟨⟨_, makes_linesOf.mpr rfl⟩, fun as makes ↦ ?_⟩,
    fun _ _ _ ↦ parse_remove, fun _ ↦ parse_eq_of_linesFor⟩
  rw [parse_append_feed, makes_linesOf.mp makes]

/-- A bad value after a good one, a comment between, and a schedule whose priority comes first. -/
theorem last_line_decides_schedule :
    Leaves .defaultPriority (List.splitOn '\n'
      "XPD_DEFAULT_PRIORITY=3\n#\nXPD_DEFAULT_POLICY=fifo\nXPD_DEFAULT_PRIORITY=x".toList)
      (.defaultPriority 3) ∧
    parse "XPD_DEFAULT_PRIORITY=3\nXPD_DEFAULT_POLICY=fifo\nXPD_DEFAULT_PRIORITY=x" =
      parse "XPD_DEFAULT_PRIORITY=3\n#\nXPD_DEFAULT_POLICY=fifo\nXPD_DEFAULT_PRIORITY=x" ∧
    parse "XPD_DEFAULT_POLICY=fifo\nXPD_DEFAULT_PRIORITY=3\nXPD_DEFAULT_PRIORITY=x" =
      parse "XPD_DEFAULT_PRIORITY=3\n#\nXPD_DEFAULT_POLICY=fifo\nXPD_DEFAULT_PRIORITY=x" := by
  obtain ⟨leaves, -, remove, reorder⟩ := last_line_decides
    "XPD_DEFAULT_PRIORITY=3\n#\nXPD_DEFAULT_POLICY=fifo\nXPD_DEFAULT_PRIORITY=x"
  refine ⟨(leaves _ _).mpr (by decide), ?_, reorder _ fun key ↦ ?_⟩
  · exact remove ["XPD_DEFAULT_PRIORITY=3".toList] "#".toList
      ["XPD_DEFAULT_POLICY=fifo".toList, "XPD_DEFAULT_PRIORITY=x".toList] (by decide)
      (.comment .nil)
  · rw [linesFor_eq (by decide), linesFor_eq (by decide)]
    cases key <;> decide

end Settings

end Supervisor
