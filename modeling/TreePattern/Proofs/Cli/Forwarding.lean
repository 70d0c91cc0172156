import Mathlib.Control.Monad.Basic
import Mathlib.Data.List.Nodup
import TreePattern.Cli.Usage
import TreePattern.Proofs.Cli.Format
import TreePattern.Proofs.Tree.Attribute

namespace TreePattern.Cli

/-- A word that begins like an option. Such a word is not taken for the value of the option before
it. -/
def Dashed (word : String) : Prop :=
  ∃ letter rest, word.toList = '-' :: letter :: rest

section Lookup

variable {given : List (OptionName × String)} {option : OptionName} {value : String}

theorem mem_of_lookup (h : given.lookup option = some value) : (option, value) ∈ given := by
  obtain ⟨before, after, rfl, -⟩ := List.lookup_eq_some_iff.mp h
  exact List.mem_append_right before List.mem_cons_self

theorem lookup_of_mem (hn : (given.map (·.1)).Nodup) (h : (option, value) ∈ given) :
    given.lookup option = some value := by
  obtain ⟨before, after, rfl⟩ := List.append_of_mem h
  refine List.lookup_eq_some_iff.mpr ⟨before, after, rfl, fun other ho ↦ ?_⟩
  rw [List.map_append, List.nodup_append] at hn
  exact bne_iff_ne.mpr (hn.2.2 other.1 (List.mem_map_of_mem ho) option List.mem_cons_self).symm

end Lookup

namespace Reading

variable {g : Grammar} {r r₁ r' : Reading} {name value word : String} {option : OptionName}
  {args rest : List String} {settled given : List (OptionName × String)}

def Checked (settled : List (OptionName × String)) : Prop :=
  ∀ entry ∈ settled, entry.1.check entry.2 = .ok ()

theorem settle_checked (hr : Checked r.settled) (h : r.settle g = .ok r') : Checked r'.settled := by
  unfold settle at h
  split at h
  · cases h
    exact hr
  · cases h
  · next option value _ =>
    split at h
    · cases h
    · split at h
      · next hcheck =>
        cases h
        intro entry he
        rcases List.mem_append.mp he with he | he
        · exact hr entry he
        · rwa [List.mem_singleton.mp he]
      all_goals cases h

theorem settle_value (hl : settled.lookup option = none) (hc : option.check value = .ok ()) :
    settle g ⟨settled, some (option, some value)⟩ = .ok ⟨settled ++ [(option, value)], none⟩ := by
  simp [settle, hl, hc]

theorem long_eq_ok {text : Option String} (h : r.long g name text = .ok r') :
    ∃ option r₁, r.settle g = .ok r₁ ∧ (r' = { r₁ with pending := some (option, none) } ∨
      ∃ value, settle g { r₁ with pending := some (option, some value) } = .ok r') := by
  unfold long at h
  split at h
  · next option _ =>
    obtain ⟨r₁, hr₁, h⟩ := exceptBind_eq_ok.mp h
    cases text with
    | none =>
      cases h
      exact ⟨option, r₁, hr₁, .inl rfl⟩
    | some value => exact ⟨option, r₁, hr₁, .inr ⟨value, h⟩⟩
  · cases text with
    | none =>
      obtain ⟨-, -, h⟩ := exceptBind_eq_ok.mp h
      cases h
    | some value => cases h
  · cases h

theorem short_ne_ok (letter : Char) : r.short g letter ≠ .ok r' := by
  intro h
  unfold short at h
  split at h
  · obtain ⟨-, -, h⟩ := exceptBind_eq_ok.mp h
    cases h
  · cases h

theorem long_checked {text : Option String} (hr : Checked r.settled)
    (h : r.long g name text = .ok r') : Checked r'.settled := by
  obtain ⟨option, r₁, hr₁, hrest⟩ := long_eq_ok h
  have hchecked : Checked r₁.settled := settle_checked hr hr₁
  rcases hrest with rfl | ⟨value, hvalue⟩
  · exact hchecked
  · exact settle_checked (r := ⟨r₁.settled, some (option, some value)⟩) hchecked hvalue

theorem words_checked {left : Option (String × List String)} (hr : Checked r.settled)
    (h : r.words g args = .ok (r', left)) : Checked r'.settled := by
  induction args generalizing r with
  | nil =>
    cases h
    exact hr
  | cons word rest ih =>
    unfold words at h
    split at h
    · cases h
      exact hr
    · split at h
      · split at h
        · cases h
          exact hr
        · cases h
      · dsimp only at h
        split at h
        · exact ih (long_checked hr ‹_›) h
        · cases h
      · split at h
        · exact absurd ‹_› (short_ne_ok _)
        · cases h
      · split at h
        · next option _ => exact ih (r := ⟨r.settled, some (option, some word)⟩) hr h
        · cases h

def spell (given : List (OptionName × String)) : List String :=
  given.flatMap fun entry ↦ ["--" ++ entry.1.name, entry.2]

def finish (g : Grammar) (r : Reading) (args : List String) :
    Except Stop (List (OptionName × String)) := do
  let (r, _) ← r.words g args
  return (← r.settle g).settled

theorem splitEquals_name (option : OptionName) :
    splitEquals option.name.toList = (option.name.toList, none) := by
  cases option <;> decide +kernel

theorem words_option (hc : g.commands = []) (ho : g.option? option.name = some option)
    (hs : r.settle g = .ok ⟨settled, none⟩) :
    r.words g (("--" ++ option.name) :: rest) = words g ⟨settled, some (option, none)⟩ rest := by
  have hne : option.name.toList ≠ [] := by cases option <;> decide +kernel
  have hlist : ("--" ++ option.name).toList = '-' :: '-' :: option.name.toList := by
    rw [String.toList_append]
    rfl
  have hlong : r.long g option.name none = .ok ⟨settled, some (option, none)⟩ := by
    simp only [long, ho, hs]
    rfl
  have hsplit := splitEquals_name option
  have hof : String.ofList option.name.toList = option.name := String.ofList_toList
  rw [words.eq_def]
  dsimp only
  rw [hlist, hc]
  generalize option.name.toList = body at hne hsplit hof
  obtain ⟨c, cs, rfl⟩ := List.exists_cons_of_ne_nil hne
  simp [hsplit, hof, hlong]

theorem words_value (hd : ¬ Dashed value) :
    words g ⟨settled, some (option, none)⟩ (value :: rest) =
      words g ⟨settled, some (option, some value)⟩ rest := by
  rw [words.eq_def]
  simp only [awaits, Bool.not_true, Bool.false_and, Bool.false_eq_true, if_false]
  split
  · exact absurd ⟨_, _, ‹_›⟩ hd
  · exact absurd ⟨_, _, ‹_›⟩ hd
  · exact absurd ⟨_, _, ‹_›⟩ hd
  · rfl

theorem finish_dashed (hd : Dashed value) :
    ∃ stop, finish g ⟨settled, some (option, none)⟩ (value :: rest) = .error stop := by
  obtain ⟨letter, letters, hlist⟩ := hd
  cases hf : finish g ⟨settled, some (option, none)⟩ (value :: rest) with
  | error stop => exact ⟨stop, rfl⟩
  | ok result =>
    obtain ⟨⟨r, left⟩, hw, hf⟩ := exceptBind_eq_ok.mp hf
    obtain ⟨r', hs, -⟩ := exceptBind_eq_ok.mp hf
    unfold words at hw
    simp only [awaits, Bool.not_true, Bool.false_and, Bool.false_eq_true, if_false] at hw
    split at hw
    · split at hw
      · cases hw
        cases hs
      · cases hw
    · split at hw
      · next hlong =>
        obtain ⟨_, _, hs, -⟩ := long_eq_ok hlong
        cases hs
      · cases hw
    · split at hw
      · exact absurd ‹_› (short_ne_ok _)
      · cases hw
    · next hnot => exact absurd hlist (hnot letter letters)

/-- Options that are written as words, none of them twice, are read as they were unless a value
begins like an option; then the words are refused. -/
theorem finish_spell (hc : g.commands = [])
    (hg : ∀ entry ∈ given, g.option? entry.1.name = some entry.1) (hv : Checked given)
    (hn : ((settled ++ given).map (·.1)).Nodup) (hs : r.settle g = .ok ⟨settled, none⟩) :
    (∀ entry ∈ given, ¬ Dashed entry.2) ∧ r.finish g (spell given) = .ok (settled ++ given) ∨
      (∃ entry ∈ given, Dashed entry.2) ∧ ∃ stop, r.finish g (spell given) = .error stop := by
  induction given generalizing r settled with
  | nil =>
    rw [List.append_nil]
    have hread : r.finish g (spell []) = .ok settled :=
      exceptBind_eq_ok.mpr ⟨(r, none), rfl, exceptBind_eq_ok.mpr ⟨_, hs, rfl⟩⟩
    exact .inl ⟨by simp, hread⟩
  | cons entry rest ih =>
    obtain ⟨option, value⟩ := entry
    have hoption : r.finish g (spell ((option, value) :: rest)) =
        finish g ⟨settled, some (option, none)⟩ (value :: spell rest) := by
      have hspell : spell ((option, value) :: rest) =
          ("--" ++ option.name) :: value :: spell rest := rfl
      rw [hspell, finish, words_option hc (hg _ List.mem_cons_self) hs, finish]
    rw [hoption]
    by_cases hd : Dashed value
    · exact .inr ⟨⟨_, List.mem_cons_self, hd⟩, finish_dashed hd⟩
    have hvalue : finish g ⟨settled, some (option, none)⟩ (value :: spell rest) =
        finish g ⟨settled, some (option, some value)⟩ (spell rest) := by
      rw [finish, words_value hd, finish]
    have hfresh : settled.lookup option = none := by
      rw [List.map_append, List.nodup_append] at hn
      refine List.lookup_eq_none_iff.mpr fun other ho ↦ ?_
      exact bne_iff_ne.mpr (hn.2.2 other.1 (List.mem_map_of_mem ho) option List.mem_cons_self).symm
    have hsettle := settle_value (g := g) hfresh (hv _ List.mem_cons_self)
    rw [hvalue, List.append_cons]
    have hrest := ih (fun other ho ↦ hg other (.tail _ ho)) (fun other ho ↦ hv other (.tail _ ho))
      (by rwa [← List.append_cons]) hsettle
    simpa [hd] using hrest

end Reading

namespace Invocation

open Reading

def forwarded (i : Invocation) : List (OptionName × String) :=
  let entry (option : OptionName) (value : Option String) : List (OptionName × String) :=
    (value.map (option, ·)).toList
  entry .configPath i.configPath ++ entry .logFilter i.logFilter ++
    entry .logFormat (i.logFormat.map (·.name)) ++ entry .output (i.output.map (·.name)) ++
    entry .maxSearchNodes (i.maxSearchNodes.map toString)

/-- Options are those of an invocation that concern the configuration, and have the values given. -/
structure Forwards (i : Invocation) (options : List (OptionName × String)) : Prop where
  nodup : (options.map (·.1)).Nodup
  configPath : options.lookup .configPath = i.configPath
  logFilter : options.lookup .logFilter = i.logFilter
  logFormat : (options.lookup .logFormat).map LogFormat.ofAnyCase? = i.logFormat.map some
  output : (options.lookup .output).map OutputFormat.ofName? = i.output.map some
  maxSearchNodes : (options.lookup .maxSearchNodes).map readCount = i.maxSearchNodes.map .ok
  pattern : options.lookup .pattern = none
  input : options.lookup .input = none

variable {i : Invocation} {args : List String}

theorem configWords_eq (i : Invocation) : i.configWords = spell i.forwarded := by
  obtain ⟨configPath, logFilter, logFormat, pattern, input, output, maxSearchNodes⟩ := i
  cases configPath <;> cases logFilter <;> cases logFormat <;> cases output <;>
    cases maxSearchNodes <;> rfl

theorem parse_eq_ok (h : parse args = .ok i) : ∃ pattern before after,
    Checked before ∧ Checked after ∧ i = ofOptions pattern before after := by
  obtain ⟨⟨outer, command⟩, houter, h⟩ := exceptBind_eq_ok.mp h
  dsimp only at h
  cases command with
  | none =>
    obtain ⟨outer', houter', herror⟩ := exceptBind_eq_ok.mp h
    cases herror
  | some command =>
    obtain ⟨⟨inner, left⟩, hinner, h⟩ := exceptBind_eq_ok.mp h
    obtain ⟨inner', hinner', h⟩ := exceptBind_eq_ok.mp h
    split at h
    · cases h
    · next pattern _ =>
      obtain ⟨outer', houter', h⟩ := exceptBind_eq_ok.mp h
      cases h
      have hstart : Checked start.settled := by simp [Checked, start]
      exact ⟨pattern, outer'.settled, inner'.settled,
        settle_checked (words_checked hstart houter) houter',
        settle_checked (words_checked hstart hinner) hinner', rfl⟩

theorem parse_values (h : parse args = .ok i) :
    (∀ path, i.configPath = some path → OptionName.configPath.check path = .ok ()) ∧
      ∀ count, i.maxSearchNodes = some count → count < UInt64.size := by
  obtain ⟨pattern, before, after, hbefore, hafter, rfl⟩ := parse_eq_ok h
  constructor
  · intro path hp
    rcases Option.or_eq_some_iff.mp hp with hp | ⟨-, hp⟩
    · exact hafter _ (mem_of_lookup hp)
    · exact hbefore _ (mem_of_lookup hp)
  · intro count hcount
    obtain ⟨value, -, hread⟩ := Option.bind_eq_some_iff.mp hcount
    cases hv : readCount value with
    | error fault =>
      rw [hv] at hread
      cases hread
    | ok n =>
      rw [hv] at hread
      cases hread
      exact readCount_lt hv

theorem lookup_forwarded (i : Invocation) (option : OptionName) : i.forwarded.lookup option =
    match option with
    | .configPath => i.configPath
    | .logFilter => i.logFilter
    | .logFormat => i.logFormat.map (·.name)
    | .output => i.output.map (·.name)
    | .maxSearchNodes => i.maxSearchNodes.map toString
    | .pattern | .input => none := by
  have hentry (name : OptionName) (value : Option String) :
      ((value.map (name, ·)).toList).lookup option = if option = name then value else none := by
    cases value with
    | none => simp
    | some value =>
      by_cases hn : option = name
      · simp [hn]
      · simp [List.lookup_cons, beq_false_of_ne hn, hn]
  simp only [forwarded, List.lookup_append, hentry]
  cases option <;> simp

theorem nodup_forwarded (i : Invocation) : (i.forwarded.map (·.1)).Nodup := by
  have hentry (name : OptionName) (value : Option String) :
      ((value.map (name, ·)).toList.map (·.1)).Sublist [name] := by
    cases value <;> simp
  have hkeys : (i.forwarded.map (·.1)).Sublist
      [.configPath, .logFilter, .logFormat, .output, .maxSearchNodes] := by
    simp only [forwarded, List.map_append]
    exact ((((hentry _ _).append (hentry _ _)).append (hentry _ _)).append (hentry _ _)).append
      (hentry _ _)
  exact hkeys.nodup (by decide)

theorem forwarded_checked (h : parse args = .ok i) : Checked i.forwarded := by
  obtain ⟨hpath, hcount⟩ := parse_values h
  rintro ⟨option, value⟩ he
  have hl := lookup_of_mem (nodup_forwarded i) he
  rw [lookup_forwarded] at hl
  cases option with
  | configPath => exact hpath value hl
  | logFilter => rfl
  | logFormat =>
    obtain ⟨format, -, rfl⟩ := Option.map_eq_some_iff.mp hl
    simp [OptionName.check]
  | output =>
    obtain ⟨format, -, rfl⟩ := Option.map_eq_some_iff.mp hl
    simp [OptionName.check]
  | maxSearchNodes =>
    obtain ⟨count, hc, rfl⟩ := Option.map_eq_some_iff.mp hl
    simp only [OptionName.check, readCount_toString (hcount count hc)]
    rfl
  | pattern | input => cases hl

theorem exists_dashed_iff : (∃ entry ∈ i.forwarded, Dashed entry.2) ↔
    ∃ value, (i.configPath = some value ∨ i.logFilter = some value) ∧ Dashed value := by
  constructor
  · rintro ⟨⟨option, value⟩, he, hd⟩
    have hl := lookup_of_mem (nodup_forwarded i) he
    rw [lookup_forwarded] at hl
    cases option with
    | configPath => exact ⟨value, .inl hl, hd⟩
    | logFilter => exact ⟨value, .inr hl, hd⟩
    | logFormat =>
      obtain ⟨format, -, rfl⟩ := Option.map_eq_some_iff.mp hl
      exact absurd hd (by cases format <;> simp [Dashed, LogFormat.name])
    | output =>
      obtain ⟨format, -, rfl⟩ := Option.map_eq_some_iff.mp hl
      exact absurd hd (by cases format <;> simp [Dashed, OutputFormat.name])
    | maxSearchNodes =>
      obtain ⟨count, -, rfl⟩ := Option.map_eq_some_iff.mp hl
      obtain ⟨letter, rest, hlist⟩ := hd
      have hdigit : '-'.isDigit := isDigit_of_mem_toString (by rw [hlist]; exact List.mem_cons_self)
      cases hdigit
    | pattern | input => cases hl
  · rintro ⟨value, hv | hv, hd⟩
    · exact ⟨(.configPath, value), mem_of_lookup ((lookup_forwarded i .configPath).trans hv), hd⟩
    · exact ⟨(.logFilter, value), mem_of_lookup ((lookup_forwarded i .logFilter).trans hv), hd⟩

theorem forwarded_forwards (h : parse args = .ok i) : i.Forwards i.forwarded where
  nodup := nodup_forwarded i
  configPath := lookup_forwarded i .configPath
  logFilter := lookup_forwarded i .logFilter
  logFormat := by rw [lookup_forwarded]; cases i.logFormat <;> simp
  output := by rw [lookup_forwarded]; cases i.output <;> simp
  maxSearchNodes := by
    have hcount := (parse_values h).2
    rw [lookup_forwarded]
    cases hc : i.maxSearchNodes with
    | none => rfl
    | some count => exact congrArg some (readCount_toString (hcount count hc))
  pattern := lookup_forwarded i .pattern
  input := lookup_forwarded i .input

/-- The options of a command line that concern the configuration are read again as they were given,
and no others, unless the path of the file or the filter for the log begins like an option. In that
case they are refused. -/
theorem readConfigWords_forwards (h : parse args = .ok i) :
    ((∃ options, readConfigWords i.configWords = .ok options) ↔
      ∀ value, i.configPath = some value ∨ i.logFilter = some value → ¬ Dashed value) ∧
    ∀ options, readConfigWords i.configWords = .ok options → i.Forwards options := by
  have hallowed : ∀ entry ∈ i.forwarded, configGrammar.option? entry.1.name = some entry.1 := by
    rintro ⟨option, value⟩ he
    have hl := lookup_of_mem (nodup_forwarded i) he
    rw [lookup_forwarded] at hl
    cases option with
    | pattern | input => cases hl
    | configPath | logFilter | logFormat | output | maxSearchNodes => rfl
  have hread : readConfigWords i.configWords = start.finish configGrammar (spell i.forwarded) := by
    rw [configWords_eq]
    rfl
  have hnodup : ((([] : List (OptionName × String)) ++ i.forwarded).map (·.1)).Nodup :=
    nodup_forwarded i
  have hstart : start.settle configGrammar = .ok ⟨[], none⟩ := rfl
  rw [hread]
  rcases finish_spell rfl hallowed (forwarded_checked h) hnodup hstart with
    ⟨hnone, hok⟩ | ⟨hsome, stop, herror⟩
  · rw [hok]
    refine ⟨iff_of_true ⟨_, rfl⟩ fun value hv hd ↦ ?_, fun options ho ↦ ?_⟩
    · obtain ⟨entry, he, hentry⟩ := exists_dashed_iff.mpr ⟨value, hv, hd⟩
      exact hnone entry he hentry
    · cases ho
      exact forwarded_forwards h
  · rw [herror]
    obtain ⟨value, hv, hd⟩ := exists_dashed_iff.mp hsome
    refine ⟨iff_of_false ?_ fun hall ↦ hall value hv hd, fun options ho ↦ by cases ho⟩
    rintro ⟨options, ho⟩
    cases ho

def allOptions : List String :=
  ["--config-path=my.toml", "--log-filter=warn", "match", "--pattern", "p.json",
    "--log-format", "COMPACT", "--output", "json", "--max-search-nodes", "+0042"]

theorem readConfigWords_forwards_allOptions : ∃ i, parse allOptions = .ok i ∧
    (((∃ options, readConfigWords i.configWords = .ok options) ↔
      ∀ value, i.configPath = some value ∨ i.logFilter = some value → ¬ Dashed value) ∧
    ∀ options, readConfigWords i.configWords = .ok options → i.Forwards options) :=
  have hparse : parse allOptions =
      .ok ⟨some "my.toml", some "warn", some .compact, "p.json", none, some .json, some 42⟩ := by
    decide +kernel
  ⟨_, hparse, readConfigWords_forwards hparse⟩

/-- A path that begins like an option is taken where it stands behind an equals sign, but not when
it is handed on in a word of its own. -/
theorem readConfigWords_dashed_path :
    ∃ i,
      parse ["--config-path=-c.toml", "match", "--pattern", "p.json", "--input", "t.json"] = .ok i ∧
      i.configPath = some "-c.toml" ∧
      readConfigWords i.configWords = .error (.usage (.unexpected "-c")) :=
  ⟨⟨some "-c.toml", none, none, "p.json", some "t.json", none, none⟩, by rfl, rfl, by rfl⟩

end Invocation

end TreePattern.Cli
