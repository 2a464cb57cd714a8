import SniGate.Resolver.Clip
import SniGate.Text.Pieces
import Mathlib.Data.List.MinMax

/-!
# Public suffix rules

A public suffix list is a set of rules, each in one of two sections. A rule has labels, of which any
may be `*`, and it matches a name that ends in labels which fit them. Of the rules that match a name
one prevails: an exception, or else one with the most labels. Its labels are the suffix of the name,
for an exception without the leftmost one; and where no rule matches, the last label is.

Several rules may prevail, in different sections. They agree on the suffix (`length_of_answers`),
so the list without one of its sections has a definite suffix for every name too.

## Design choices

Which rule prevails is a relation and not a search, and the list without a section is the same list
with fewer rules. Rules and names are compared label by label; how many labels a suffix has is all
that is asked of a rule in the end.
-/

namespace SniGate

/-! ## Labels -/

/-- The labels of a name, the leftmost first. -/
def labels (name : Str) : List Str := name.splitOn '.'

/-- A name has no empty label. -/
def IsName (name : Str) : Prop := [] ∉ labels name

instance (name : Str) : Decidable (IsName name) := inferInstanceAs (Decidable (_ ∉ _))

section Labels

variable {name t : Str}

theorem labels_ne_nil (name : Str) : labels name ≠ [] := List.splitOn_ne_nil _ _

theorem labels_injective : Function.Injective labels := by
  intro s t h
  calc s = ['.'].intercalate (labels s) := (List.intercalate_splitOn '.').symm
    _ = ['.'].intercalate (labels t) := by rw [h]
    _ = t := List.intercalate_splitOn '.'

theorem labels_append {x : Str} (hx : '.' ∉ x) (rest : Str) :
    labels (x ++ '.' :: rest) = x :: labels rest :=
  List.splitOn_append_cons_self_of_not_mem hx rest

theorem labels_of_notMem {x : Str} (hx : '.' ∉ x) : labels x = [x] := List.splitOn_eq_singleton hx

theorem ne_nil_of_isName (h : IsName name) : name ≠ [] := by
  rintro rfl
  exact h (List.mem_singleton_self _)

end Labels

/-! ## Rules -/

/-- One rule of a list. -/
structure SuffixRule where
  labels : List Str
  exception : Bool
  type : SuffixType
  ne_nil : labels ≠ []
  /-- An exception is made to a shorter suffix. -/
  exception_length : exception → 2 ≤ labels.length
deriving DecidableEq

/-- A label of a rule fits a label of a name. -/
def LabelFits (pattern label : Str) : Prop := pattern = ['*'] ∨ pattern = label

instance (pattern label : Str) : Decidable (LabelFits pattern label) :=
  inferInstanceAs (Decidable (_ ∨ _))

namespace SuffixRule

/-- The rule matches a name with these labels. -/
def Matches (r : SuffixRule) (name : List Str) : Prop :=
  r.labels.length ≤ name.length ∧
    List.Forall₂ LabelFits r.labels (name.drop (name.length - r.labels.length))

instance (r : SuffixRule) (name : List Str) : Decidable (r.Matches name) :=
  inferInstanceAs (Decidable (_ ∧ _))

/-- How many labels of a name the rule makes its suffix. -/
def suffixLength (r : SuffixRule) : ℕ :=
  if r.exception then r.labels.length - 1 else r.labels.length

/-- Of the rules that match a name, the rule is one that prevails: an exception, or else one with
the most labels. -/
def Prevails (rules : List SuffixRule) (name : List Str) (r : SuffixRule) : Prop :=
  r ∈ rules ∧ r.Matches name ∧ ∀ r' ∈ rules, r'.Matches name →
    (r'.exception → r.exception) ∧
    (r'.exception = r.exception → r'.labels.length ≤ r.labels.length)

end SuffixRule

/-- A rule that prevails, if one matches. -/
def prevailing (rules : List SuffixRule) (name : List Str) : Option SuffixRule :=
  let applicable := rules.filter (·.Matches name)
  let exceptions := applicable.filter (·.exception)
  (if exceptions = [] then applicable else exceptions).argmax (·.labels.length)

/-- How many labels the suffix of a name has; where no rule matches, it is the last label. -/
def publicSuffixLength (rules : List SuffixRule) (name : List Str) : ℕ :=
  (prevailing rules name).elim 1 SuffixRule.suffixLength

/-- What a list with these rules says about a name: how many labels its suffix has, and the section
of the rule that says so, if one does. -/
def Answers (rules : List SuffixRule) (name : List Str) (length : ℕ) (type : Option SuffixType) :
    Prop :=
  (∃ r, SuffixRule.Prevails rules name r ∧ length = r.suffixLength ∧ type = some r.type) ∨
    (∀ r ∈ rules, ¬r.Matches name) ∧ length = 1 ∧ type = none

/-- The list answers every name with its suffix by these rules, and with the section of the rule. -/
def SuffixList.Documented (list : SuffixList) (rules : List SuffixRule) : Prop :=
  ∀ name, IsName name → ∃ suffix type, list.suffix name = some (suffix, type) ∧
    labels suffix <:+ labels name ∧ Answers rules (labels name) (labels suffix).length type

theorem SuffixList.Documented.of_suffix {list : SuffixList} {rules : List SuffixRule}
    {name suffix : Str} {type : Option SuffixType} (hdoc : list.Documented rules)
    (hname : IsName name) (h : list.suffix name = some (suffix, type)) :
    labels suffix <:+ labels name ∧ Answers rules (labels name) (labels suffix).length type := by
  obtain ⟨suffix', type', h', hsuffix, hanswers⟩ := hdoc name hname
  rw [h, Option.some_inj, Prod.mk.injEq] at h'
  obtain ⟨rfl, rfl⟩ := h'
  exact ⟨hsuffix, hanswers⟩

/-- The rules of the registries. -/
def icannRules (rules : List SuffixRule) : List SuffixRule := rules.filter (·.type = .icann)

/-- A name that the registries give out names below: one of their rules is as long as the name and
matches it, and no exception of theirs does. -/
def IsRegistrySuffix (rules : List SuffixRule) (name : List Str) : Prop :=
  (∃ r ∈ icannRules rules, r.exception = false ∧ r.Matches name ∧ r.labels.length = name.length) ∧
    ∀ r ∈ icannRules rules, r.Matches name → r.exception = false

instance (rules : List SuffixRule) (name : List Str) : Decidable (IsRegistrySuffix rules name) :=
  inferInstanceAs (Decidable (_ ∧ _))

section Rules

variable {rules : List SuffixRule} {r r' : SuffixRule} {name : List Str} {k k' : ℕ}
  {type type' : Option SuffixType}

theorem suffixLength_pos (r : SuffixRule) : 0 < r.suffixLength := by
  rw [SuffixRule.suffixLength]
  split_ifs with hexc
  · have := r.exception_length hexc
    omega
  · exact List.length_pos_of_ne_nil r.ne_nil

theorem suffixLength_le_length (r : SuffixRule) : r.suffixLength ≤ r.labels.length := by
  rw [SuffixRule.suffixLength]
  split_ifs
  · exact Nat.sub_le _ _
  · exact le_rfl

/-- Rules that prevail over one another make the same suffix. -/
theorem suffixLength_eq_of_prevails (h : SuffixRule.Prevails rules name r)
    (h' : SuffixRule.Prevails rules name r') : r.suffixLength = r'.suffixLength := by
  obtain ⟨hmem, hmatch, hall⟩ := h
  obtain ⟨hmem', hmatch', hall'⟩ := h'
  have hexc : r.exception = r'.exception :=
    Bool.eq_iff_iff.mpr ⟨(hall' r hmem hmatch).1, (hall r' hmem' hmatch').1⟩
  have hlen : r.labels.length = r'.labels.length :=
    le_antisymm ((hall' r hmem hmatch).2 hexc) ((hall r' hmem' hmatch').2 hexc.symm)
  rw [SuffixRule.suffixLength, SuffixRule.suffixLength, hexc, hlen]

/-- **The suffix is definite.** -/
theorem length_of_answers (h : Answers rules name k type) (h' : Answers rules name k' type') :
    k = k' := by
  rcases h with ⟨r, hr, rfl, -⟩ | ⟨hnone, rfl, -⟩
  · rcases h' with ⟨r', hr', rfl, -⟩ | ⟨hnone, -, -⟩
    · exact suffixLength_eq_of_prevails hr hr'
    · exact absurd hr.2.1 (hnone r hr.1)
  · rcases h' with ⟨r', hr', -, -⟩ | ⟨-, rfl, -⟩
    · exact absurd hr'.2.1 (hnone r' hr'.1)
    · rfl

theorem prevails_of_prevailing (h : prevailing rules name = some r) :
    SuffixRule.Prevails rules name r := by
  rw [prevailing] at h
  have hmem := List.argmax_mem (Option.mem_def.mpr h)
  have hmax := fun r' hr' ↦ List.le_of_mem_argmax (a := r') hr' (Option.mem_def.mpr h)
  have happ : ∀ {r'}, r' ∈ rules.filter (·.Matches name) ↔ r' ∈ rules ∧ r'.Matches name := by
    simp
  split_ifs at hmem hmax with hnone
  · obtain ⟨hr, hmatch⟩ := happ.mp hmem
    have hplain : ∀ r' ∈ rules, r'.Matches name → r'.exception = false := fun r' hr' hmatch' ↦ by
      simpa using List.filter_eq_nil_iff.mp hnone r' (happ.mpr ⟨hr', hmatch'⟩)
    refine ⟨hr, hmatch, fun r' hr' hmatch' ↦ ⟨fun hexc ↦ ?_, fun _ ↦ ?_⟩⟩
    · rw [hplain r' hr' hmatch'] at hexc
      exact absurd hexc (by simp)
    · exact hmax r' (happ.mpr ⟨hr', hmatch'⟩)
  · obtain ⟨hr, hexc⟩ := List.mem_filter.mp hmem
    obtain ⟨hr, hmatch⟩ := happ.mp hr
    refine ⟨hr, hmatch, fun r' hr' hmatch' ↦ ⟨fun _ ↦ hexc, fun heq ↦ ?_⟩⟩
    exact hmax r' (List.mem_filter.mpr ⟨happ.mpr ⟨hr', hmatch'⟩, heq.trans hexc⟩)

theorem not_matches_of_prevailing (h : prevailing rules name = none) (hr : r ∈ rules) :
    ¬r.Matches name := by
  intro hmatch
  rw [prevailing, List.argmax_eq_none] at h
  have hmem : r ∈ rules.filter (·.Matches name) := by simp [hr, hmatch]
  split_ifs at h with hnone
  · rw [h] at hmem
    exact List.not_mem_nil hmem
  · exact hnone h

theorem answers_prevailing (rules : List SuffixRule) (name : List Str) :
    Answers rules name (publicSuffixLength rules name)
      ((prevailing rules name).map SuffixRule.type) := by
  rw [publicSuffixLength]
  cases h : prevailing rules name with
  | none => exact .inr ⟨fun r hr ↦ not_matches_of_prevailing h hr, rfl, rfl⟩
  | some r => exact .inl ⟨r, prevails_of_prevailing h, rfl, rfl⟩

theorem eq_publicSuffixLength (h : Answers rules name k type) :
    k = publicSuffixLength rules name := length_of_answers h (answers_prevailing rules name)

theorem length_pos_of_answers (h : Answers rules name k type) : 0 < k := by
  rcases h with ⟨r, -, rfl, -⟩ | ⟨-, rfl, -⟩
  · exact suffixLength_pos r
  · exact Nat.one_pos

theorem length_le_of_answers (hname : name ≠ []) (h : Answers rules name k type) :
    k ≤ name.length := by
  rcases h with ⟨r, ⟨-, hmatch, -⟩, rfl, -⟩ | ⟨-, rfl, -⟩
  · exact (suffixLength_le_length r).trans hmatch.1
  · exact List.length_pos_of_ne_nil hname

/-! ## The registries' rules alone -/

theorem mem_icannRules : r ∈ icannRules rules ↔ r ∈ rules ∧ r.type = .icann := by
  simp [icannRules]

/-- What a rule of the registries says prevails without the private rules too. -/
theorem answers_icannRules (h : Answers rules name k type) (htype : type ≠ some .priv) :
    Answers (icannRules rules) name k type := by
  rcases h with ⟨r, ⟨hr, hmatch, hall⟩, rfl, rfl⟩ | ⟨hnone, rfl, rfl⟩
  · have hicann : r.type = .icann := by
      cases hr : r.type with
      | icann => rfl
      | priv => exact absurd (congrArg some hr) htype
    exact .inl ⟨r, ⟨mem_icannRules.mpr ⟨hr, hicann⟩, hmatch,
      fun r' hr' ↦ hall r' (mem_icannRules.mp hr').1⟩, rfl, rfl⟩
  · exact .inr ⟨fun r hr ↦ hnone r (mem_icannRules.mp hr).1, rfl, rfl⟩

/-- **Registry suffixes.** These, and single labels, are the names that the registries' rules leave
nothing of. -/
theorem length_eq_iff_isRegistrySuffix (hname : name ≠ [])
    (h : Answers (icannRules rules) name k type) :
    k = name.length ↔ name.length = 1 ∨ IsRegistrySuffix rules name := by
  have hpos := length_pos_of_answers h
  have hle := length_le_of_answers hname h
  rcases h with ⟨r, ⟨hr, hmatch, hall⟩, rfl, -⟩ | ⟨hnone, rfl, -⟩
  · cases hexc : r.exception with
    | true =>
      -- the suffix of an exception is shorter than its labels
      have hlt : r.suffixLength < r.labels.length := by
        have := r.exception_length hexc
        rw [SuffixRule.suffixLength, if_pos hexc]
        omega
      have hlen := hmatch.1
      refine iff_of_false (by omega) ?_
      rintro (hone | ⟨-, hplain⟩)
      · omega
      · exact absurd (hplain r hr hmatch) (by simp [hexc])
    | false =>
      have hplain : ∀ r' ∈ icannRules rules, r'.Matches name → r'.exception = false :=
        fun r' hr' hmatch' ↦ by
          by_contra hexc'
          rw [(hall r' hr' hmatch').1 (by simpa using hexc')] at hexc
          exact absurd hexc (by simp)
      have hlen : r.suffixLength = r.labels.length := by simp [SuffixRule.suffixLength, hexc]
      constructor
      · intro heq
        exact .inr ⟨⟨r, hr, hexc, hmatch, by omega⟩, hplain⟩
      · rintro (hone | ⟨⟨r', hr', hexc', hmatch', hlen'⟩, -⟩)
        · omega
        · have := (hall r' hr' hmatch').2 (hexc'.trans hexc.symm)
          omega
  · refine ⟨fun heq ↦ .inl heq.symm, ?_⟩
    rintro (hone | ⟨⟨r, hr, -, hmatch, -⟩, -⟩)
    · exact hone.symm
    · exact absurd hmatch (hnone r hr)

end Rules

/-! ## A list of rules -/

/-- The list that answers with the rule that prevails. -/
def SuffixList.ofRules (rules : List SuffixRule) : SuffixList where
  suffix name :=
    if name = [] then none
    else
      let length := publicSuffixLength rules (labels name)
      some (['.'].intercalate ((labels name).drop ((labels name).length - length)),
        (prevailing rules (labels name)).map SuffixRule.type)

theorem SuffixList.documented_ofRules (rules : List SuffixRule) :
    (SuffixList.ofRules rules).Documented rules := by
  intro name hname
  have hanswers := answers_prevailing rules (labels name)
  have hpos := length_pos_of_answers hanswers
  have hle := length_le_of_answers (labels_ne_nil name) hanswers
  have hlen : ((labels name).drop ((labels name).length - publicSuffixLength rules (labels name))
      ).length = publicSuffixLength rules (labels name) := by
    rw [List.length_drop]
    omega
  have hsuffix : labels (['.'].intercalate ((labels name).drop
      ((labels name).length - publicSuffixLength rules (labels name)))) =
      (labels name).drop ((labels name).length - publicSuffixLength rules (labels name)) := by
    refine List.splitOn_intercalate '.'
      (fun x hx ↦ notMem_of_mem_splitOn (List.mem_of_mem_drop hx)) ?_
    exact List.ne_nil_of_length_pos (by omega)
  refine ⟨_, _, if_neg (ne_nil_of_isName hname), ?_, ?_⟩
  · rw [hsuffix]
    exact List.drop_suffix _ _
  · rw [hsuffix, hlen]
    exact hanswers

end SniGate
