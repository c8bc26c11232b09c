import Mathlib.Data.List.Sort
import Mathlib.Data.String.Basic
import SemanticChecker.Enumeration.Registry

/-! Enumerations over integers and texts. A definition is accepted exactly if its names and its values are distinct and
all its values fit, and the variants are then those of the definition. Their order is the strict order of the values,
whatever was defined, reserved or rejected on the way. -/
namespace SemanticChecker

open List EnumValue EnumVariant

def EnumValue.latest (before : Option Int) : EnumValue → Option Int
  | .int value => some value
  | _ => before

/-- Whether two variants may stand in one enumeration. -/
def EnumVariant.Apart (a b : EnumVariant) : Prop :=
  a.name ≠ b.name ∧ a.value.clashes b.value = false

def EnumVariant.ofDecl (variant : VariantDecl) (value : EnumValue) : EnumVariant :=
  ⟨variant.name, value⟩

/-- The integer of a variant: the one that is written, else the one after the latest. -/
def VariantDecl.number (latest : Option Int) (variant : VariantDecl) : Int :=
  match variant.value, latest with
  | some (.integer written), _ => written
  | _, some value => value + 1
  | _, none => 0

namespace EnumDef

def numbers (latest : Option Int) : List VariantDecl → List Int
  | [] => []
  | variant :: rest => variant.number latest :: numbers (some (variant.number latest)) rest

/-- Whether values are those that a definition gives to variants, one after the other. -/
def Reads (definition : EnumDef) : Option Int → List VariantDecl → List EnumValue → Prop
  | _, [], values => values = []
  | latest, variant :: rest, values => ∃ value others, definition.value latest variant = .ok value ∧
      values = value :: others ∧ definition.Reads (value.latest latest) rest others

variable {definition : EnumDef} {latest : Option Int} {written : List VariantDecl} {values : List EnumValue}

theorem Reads.length (h : definition.Reads latest written values) : written.length = values.length := by
  induction written generalizing latest values with
  | nil => rw [h, length_nil, length_nil]
  | cons variant rest ih =>
    obtain ⟨value, others, _, rfl, reads⟩ := h
    rw [length_cons, length_cons, ih reads]

theorem take_iff {taken : List EnumVariant} {variant : VariantDecl} {next : EnumVariant} :
    definition.take taken latest variant = .ok next ↔ ∃ value, definition.value latest variant = .ok value ∧
      definition.fits value = true ∧ next = .ofDecl variant value ∧ ∀ earlier ∈ taken, earlier.Apart next := by
  simp only [take, bind, Except.bind, throw, throwThe, MonadExceptOf.throw, pure, Except.pure, Apart,
    ofDecl]
  grind

/-- By induction on the variants that are left. -/
theorem takeAll_iff {taken all : List EnumVariant} : definition.takeAll taken latest written = .ok all ↔
    ∃ values, definition.Reads latest written values ∧ (∀ value ∈ values, definition.fits value = true) ∧
      all = taken ++ written.zipWith .ofDecl values ∧ (written.zipWith .ofDecl values).Pairwise Apart ∧
      ∀ earlier ∈ taken, ∀ variant ∈ written.zipWith .ofDecl values, earlier.Apart variant := by
  induction written generalizing taken latest with
  | nil =>
    constructor
    · intro done
      cases done
      exact ⟨[], by simp [Reads]⟩
    · rintro ⟨_, _, _, rfl, _⟩
      simp [takeAll]
  | cons variant rest ih =>
    rw [takeAll]
    constructor
    · intro done
      split at done
      · cases done
      · rename_i next isNext
        obtain ⟨value, isValue, fit, rfl, apart⟩ := take_iff.1 isNext
        obtain ⟨values, reads, fits, rfl, inner, outer⟩ := ih.1 done
        rw [forall_mem_append, forall_mem_singleton] at outer
        refine ⟨value :: values, ⟨value, values, isValue, rfl, ?_⟩, forall_mem_cons.2 ⟨fit, fits⟩, by simp,
          pairwise_cons.2 ⟨outer.2, inner⟩,
          fun earlier mem => forall_mem_cons.2 ⟨apart earlier mem, outer.1 earlier mem⟩⟩
        cases value <;> exact reads
    · rintro ⟨_, ⟨value, values, isValue, rfl, reads⟩, fits, rfl, inner, outer⟩
      obtain ⟨fit, fits⟩ := forall_mem_cons.1 fits
      obtain ⟨first, inner⟩ := pairwise_cons.1 inner
      rw [take_iff.2 ⟨value, isValue, fit, rfl, fun earlier mem => outer earlier mem _ mem_cons_self⟩]
      refine ih.2 ⟨values, by cases value <;> exact reads, fits, by simp, inner, ?_⟩
      rw [forall_mem_append, forall_mem_singleton]
      exact ⟨fun earlier mem variant isNew => outer earlier mem variant (mem_cons_of_mem _ isNew), first⟩

theorem pairwise_apart (count : written.length = values.length) :
    (written.zipWith .ofDecl values).Pairwise Apart ↔
      (written.map (·.name)).Nodup ∧ values.Pairwise fun a b => a.clashes b = false := by
  obtain ⟨pairs, rfl, rfl⟩ : ∃ pairs : List (VariantDecl × EnumValue), pairs.map Prod.fst = written ∧
      pairs.map Prod.snd = values := ⟨_, map_fst_zip count.le, map_snd_zip count.ge⟩
  simp only [zipWith_map, zipWith_self, List.Nodup, pairwise_map, ← pairwise_and_iff]
  rfl

theorem clashes_integers {numbers : List Int} :
    (numbers.map int).Pairwise (fun a b => a.clashes b = false) ↔ numbers.Nodup := by
  simp [pairwise_map, clashes, List.Nodup]

theorem clashes_texts {texts : List String} :
    (texts.map EnumValue.str).Pairwise (fun a b => a.clashes b = false) ↔ texts.Nodup := by
  simp [pairwise_map, clashes, List.Nodup]

theorem validate_iff {info : EnumInfo} : definition.validate = .ok info ↔ definition.hasBacking = true ∧
    ∃ values, definition.Reads none definition.variants values ∧ (∀ value ∈ values, definition.fits value = true) ∧
      (definition.variants.zipWith .ofDecl values).Pairwise Apart ∧
      info = ⟨definition.name, definition.backing, definition.variants.zipWith .ofDecl values, definition.span⟩ := by
  have read : definition.validate = .ok info ↔ definition.hasBacking = true ∧
      ∃ all, definition.takeAll [] none definition.variants = .ok all ∧
        info = ⟨definition.name, definition.backing, all, definition.span⟩ := by
    simp only [validate, bind, Except.bind, throw, throwThe, MonadExceptOf.throw, pure, Except.pure]
    cases definition.takeAll [] none definition.variants <;> grind
  rw [read, and_congr_right_iff]
  simp only [takeAll_iff, nil_append]
  grind

theorem value_integer (isInteger : definition.backing.isInteger = true) {variant : VariantDecl} {value : EnumValue} :
    definition.value latest variant = .ok value ↔
      (∀ literal, variant.value = some literal → ∃ n, literal = .integer n) ∧ value = .int (variant.number latest) := by
  have isOther : definition.backing.isFloat = false ∧ definition.backing ≠ .str := by
    revert isInteger
    cases definition.backing <;> decide
  rcases variant with ⟨_, _ | (_ | _ | _ | _ | _), _⟩ <;>
    cases latest <;> simp [EnumDef.value, Literal.enumValue?, VariantDecl.number, isInteger, isOther, eq_comm]

theorem value_text (isText : definition.backing = .str) {variant : VariantDecl} {value : EnumValue} :
    definition.value latest variant = .ok value ↔ ∃ text, variant.value = some (.string text) ∧ value = .str text := by
  rcases variant with ⟨_, _ | (_ | _ | _ | _ | _), _⟩ <;>
    simp [EnumDef.value, Literal.enumValue?, isText, Primitive.isInteger, Primitive.isFloat, Primitive.isSigned,
      Primitive.isUnsigned, eq_comm]

theorem reads_integer (isInteger : definition.backing.isInteger = true) : definition.Reads latest written values ↔
    (∀ variant ∈ written, ∀ literal, variant.value = some literal → ∃ n, literal = .integer n) ∧
      values = (numbers latest written).map .int := by
  induction written generalizing latest values with
  | nil => simp [Reads, numbers]
  | cons variant rest ih =>
    simp only [Reads, value_integer isInteger, ih, forall_mem_cons, numbers, map_cons]
    grind [EnumValue.latest]

theorem reads_text (isText : definition.backing = .str) : definition.Reads latest written values ↔
    ∃ texts : List String, written.map (·.value) = texts.map (some ∘ .string) ∧ values = texts.map .str := by
  induction written generalizing latest values with
  | nil => simp [Reads]
  | cons variant rest ih =>
    simp only [Reads, value_text isText, ih, map_cons]
    constructor
    · rintro ⟨_, _, ⟨text, isText, rfl⟩, rfl, texts, others, rfl⟩
      exact ⟨text :: texts, by simp [isText, others], rfl⟩
    · rintro ⟨_ | ⟨text, texts⟩, others, rfl⟩
      · cases others
      · obtain ⟨isText, others⟩ := List.cons.inj others
        exact ⟨_, _, ⟨text, isText, rfl⟩, rfl, texts, others, rfl⟩

/-- Whether an integer fits 128 bits with a sign. -/
def IsWide (n : Int) : Prop :=
  -170141183460469231731687303715884105728 ≤ n ∧ n ≤ 170141183460469231731687303715884105727

theorem exists_range {kind : Primitive} (isInteger : kind.isInteger = true) : ∃ range, kind.range? = some range ∧
    ∀ n, (kind.holds n = true ↔ range.1 ≤ n ∧ n ≤ range.2) ∧ (kind.holds n = true → IsWide (n + 1)) := by
  cases kind with
  | float | float64 | bool | str => cases isInteger
  | _ =>
    refine ⟨_, rfl, fun n => ?_⟩
    simp only [Primitive.holds, Primitive.range?, Bool.and_eq_true, decide_eq_true_eq, IsWide, true_and]
    intro inside
    omega

/-- Reading a definition is exact. Over an integer kind, all written values are integers and all names are distinct, as
are the integers that the variants come to, which lie in the range of the kind; wherever reading is, the number after one
that was read fits 128 bits. Over texts, all variants have texts, and names and texts are distinct. Nothing can be over
truth values. -/
theorem validate_exact (definition : EnumDef) :
    (definition.backing.isInteger = true →
      (∀ info, definition.validate = .ok info ↔
        (∀ variant ∈ definition.variants, ∀ literal, variant.value = some literal → ∃ n, literal = .integer n) ∧
        (definition.variants.map (·.name)).Nodup ∧ (numbers none definition.variants).Nodup ∧
        (∃ range, definition.backing.range? = some range ∧
          ∀ n ∈ numbers none definition.variants, range.1 ≤ n ∧ n ≤ range.2) ∧
        info = ⟨definition.name, definition.backing,
          definition.variants.zipWith .ofDecl ((numbers none definition.variants).map .int), definition.span⟩) ∧
      ∀ before variant after info, definition.variants = before ++ variant :: after →
        { definition with variants := before }.validate = .ok info → ∀ n ∈ numbers none before, IsWide (n + 1)) ∧
    (definition.backing = .str → ∀ info, definition.validate = .ok info ↔
      ∃ texts : List String, definition.variants.map (·.value) = texts.map (some ∘ .string) ∧
        (definition.variants.map (·.name)).Nodup ∧ texts.Nodup ∧
        info = ⟨definition.name, .str, definition.variants.zipWith .ofDecl (texts.map .str), definition.span⟩) ∧
    (definition.backing = .bool → ∃ error, definition.validate = .error error) := by
  refine ⟨fun isInteger => ?_, fun isText info => ?_, fun isBool => ?_⟩
  · obtain ⟨range, isRange, holds⟩ := exists_range isInteger
    refine ⟨fun info => ?_, fun before variant after info _ done n mem => ?_⟩
    · have all : (∃ found, definition.backing.range? = some found ∧
          ∀ n ∈ numbers none definition.variants, found.1 ≤ n ∧ n ≤ found.2) ↔
          ∀ value ∈ (numbers none definition.variants).map .int, definition.fits value = true := by
        simp [isRange, fits, holds]
      rw [validate_iff, all, ← clashes_integers]
      constructor
      · rintro ⟨_, _, reads, fits, apart, rfl⟩
        obtain ⟨literals, rfl⟩ := (reads_integer isInteger).1 reads
        obtain ⟨names, values⟩ := (pairwise_apart reads.length).1 apart
        exact ⟨literals, names, values, fits, rfl⟩
      · rintro ⟨literals, names, values, fits, isInfo⟩
        have reads := (@reads_integer _ none _ _ isInteger).2 ⟨literals, rfl⟩
        exact ⟨by simp [hasBacking, Primitive.isNumeric, isInteger], _, reads, fits,
          (pairwise_apart reads.length).2 ⟨names, values⟩, isInfo⟩
    · obtain ⟨_, _, reads, fits, _⟩ := validate_iff.1 done
      obtain ⟨_, rfl⟩ := (@reads_integer { definition with variants := before } _ _ _ isInteger).1 reads
      exact (holds n).2 (forall_mem_map.1 fits n mem)
  · rw [validate_iff]
    constructor
    · rintro ⟨_, _, reads, _, apart, rfl⟩
      obtain ⟨texts, written, rfl⟩ := (reads_text isText).1 reads
      obtain ⟨names, values⟩ := (pairwise_apart reads.length).1 apart
      exact ⟨texts, written, names, clashes_texts.1 values, by rw [isText]⟩
    · rintro ⟨texts, written, names, values, isInfo⟩
      have reads := (@reads_text _ none _ _ isText).2 ⟨texts, written, rfl⟩
      exact ⟨by simp [hasBacking, isText], _, reads, by simp [fits],
        (pairwise_apart reads.length).2 ⟨names, clashes_texts.2 values⟩, by rw [isInfo, isText]⟩
  · cases done : definition.validate with
    | error e => exact ⟨e, rfl⟩
    | ok info =>
      have backed := (validate_iff.1 done).1
      rw [hasBacking, isBool] at backed
      cases backed

end EnumDef

def EnumValue.number : EnumValue → Int
  | .int value => value
  | _ => 0

def EnumValue.word : EnumValue → String
  | .str value => value
  | _ => ""

namespace EnumInfo

/-- Whether the value of the variant at one position is less than that at another. -/
def Precedes (info : EnumInfo) (i j : Nat) : Prop :=
  ∃ a b, info.variants[i]? = some a ∧ info.variants[j]? = some b ∧ a.value.compare? b.value = some .lt

/-- Whether variants have distinct names and distinct values in a linear order. -/
def IsLinear (info : EnumInfo) : Prop :=
  info.variants.Pairwise Apart ∧ ∃ (α : Type) (_ : LinearOrder α) (key : EnumValue → α),
    ∀ a ∈ info.variants, ∀ b ∈ info.variants,
      a.value.compare? b.value = some (compare (key a.value) (key b.value)) ∧
        (a.value.clashes b.value = false → key a.value ≠ key b.value)

variable {info : EnumInfo}

theorem IsLinear.asymm (h : info.IsLinear) {i j : Nat} (first : info.Precedes i j) : ¬ info.Precedes j i := by
  obtain ⟨_, α, order, key, linear⟩ := h
  rintro ⟨b, a, isB, isA, greater⟩
  obtain ⟨_, _, same, again, less⟩ := first
  cases same.symm.trans isA
  cases again.symm.trans isB
  have memA := mem_of_getElem? isA
  have memB := mem_of_getElem? isB
  rw [(linear a memA b memB).1, Option.some.injEq, compare_lt_iff_lt] at less
  rw [(linear b memB a memA).1, Option.some.injEq, compare_lt_iff_lt] at greater
  exact less.asymm greater

/-- The variants with their positions, from the least to the greatest value. -/
def sorted (info : EnumInfo) : List (EnumVariant × Nat) :=
  info.variants.zipIdx.mergeSort fun a b => a.1.value.compare? b.1.value != some .gt

theorem sorted_perm (info : EnumInfo) : (info.sorted.map (·.2)).Perm (List.range info.variants.length) := by
  rw [range_eq_range', ← zipIdx_map_snd]
  exact (mergeSort_perm _ _).map _

/-- Values compare as in a linear order only with each other, so the sort is carried over to their places there. -/
theorem IsLinear.pairwise_sorted (h : info.IsLinear) : (info.sorted.map (·.2)).Pairwise info.Precedes := by
  obtain ⟨apart, α, order, key, linear⟩ := h
  rw [← zipIdx_map_fst 0 info.variants, pairwise_map] at apart
  have place : ∀ pair ∈ info.variants.zipIdx, info.variants[pair.2]? = some pair.1 :=
    fun pair => mem_zipIdx_iff_getElem?.1
  have compares := fun a isA b isB => linear _ (mem_of_getElem? (place a isA)) _ (mem_of_getElem? (place b isB))
  have keys : info.sorted.map (fun pair => key pair.1.value) =
      (info.variants.zipIdx.map fun pair => key pair.1.value).mergeSort (· ≤ ·) := by
    refine map_mergeSort fun a isA b isB => ?_
    rw [(compares a isA b isB).1, Bool.eq_iff_iff]
    simp [compare_gt_iff_gt]
  have distinct : (info.variants.zipIdx.map fun pair => key pair.1.value).Nodup :=
    pairwise_map.2 (apart.imp_of_mem fun isA isB h => (compares _ isA _ isB).2 h.2)
  have strict : (info.sorted.map fun pair => key pair.1.value).Pairwise (· < ·) := by
    rw [keys]
    refine ((pairwise_mergeSort' (· ≤ ·) _).and ((mergeSort_perm _ _).nodup_iff.2 distinct)).imp ?_
    exact fun both => lt_of_le_of_ne both.1 both.2
  refine pairwise_map.2 ((pairwise_map.1 strict).imp_of_mem fun {a b} isA isB less => ?_)
  have isA := (mergeSort_perm _ _).mem_iff.1 isA
  have isB := (mergeSort_perm _ _).mem_iff.1 isB
  exact ⟨a.1, b.1, place a isA, place b isB, by rw [(compares a isA b isB).1, compare_lt_iff_lt.2 less]⟩

theorem IsLinear.lt_iff (h : info.IsLinear) {p q i j : Nat} (isI : (info.sorted.map (·.2))[p]? = some i)
    (isJ : (info.sorted.map (·.2))[q]? = some j) : p < q ↔ info.Precedes i j := by
  obtain ⟨inside, rfl⟩ := List.getElem?_eq_some_iff.1 isI
  obtain ⟨within, rfl⟩ := List.getElem?_eq_some_iff.1 isJ
  have strict := pairwise_iff_getElem.1 h.pairwise_sorted
  refine ⟨strict p q inside within, fun precedes => ?_⟩
  rcases Nat.lt_trichotomy p q with less | rfl | greater
  · exact less
  · exact (h.asymm precedes precedes).elim
  · exact (h.asymm precedes (strict q p within inside greater)).elim

theorem variant?_name (apart : info.variants.Pairwise Apart) {i : Nat} {a : EnumVariant}
    (found : info.variants[i]? = some a) : info.variant? a.name = some (i, a) := by
  obtain ⟨before, after, parts⟩ := append_of_mem (mem_zipIdx_iff_getElem?.2 found : (a, i) ∈ info.variants.zipIdx)
  rw [← zipIdx_map_fst 0 info.variants, pairwise_map, parts, pairwise_append] at apart
  have first : info.variants.zipIdx.find? (fun pair => pair.1.name == a.name) = some (a, i) :=
    find?_eq_some_iff_append.2 ⟨by simp, before, after, parts, fun pair mem => by
      simpa using (apart.2.2 pair mem _ mem_cons_self).1⟩
  exact congrArg (Option.map Prod.swap) first

theorem isLinear_of_validate {definition : EnumDef} (done : definition.validate = .ok info)
    (kind : info.backing.isInteger = true ∨ info.backing = .str) : info.IsLinear := by
  obtain ⟨_, values, reads, _, apart, rfl⟩ := EnumDef.validate_iff.1 done
  have read : ∀ a ∈ definition.variants.zipWith .ofDecl values, (a : EnumVariant).value ∈ values := by
    intro a mem
    obtain ⟨i, h, rfl⟩ := getElem_of_mem mem
    rw [getElem_zipWith]
    exact getElem_mem _
  refine ⟨apart, ?_⟩
  rcases kind with isInteger | isText
  · obtain ⟨_, rfl⟩ := (EnumDef.reads_integer isInteger).1 reads
    refine ⟨Int, inferInstance, number, fun a isA b isB => ?_⟩
    obtain ⟨m, _, isM⟩ := mem_map.1 (read a isA)
    obtain ⟨n, _, isN⟩ := mem_map.1 (read b isB)
    rw [← isM, ← isN, LinearOrder.compare_eq_compareOfLessAndEq]
    exact ⟨rfl, by simp [clashes, number]⟩
  · obtain ⟨texts, _, rfl⟩ := (EnumDef.reads_text isText).1 reads
    refine ⟨String, inferInstance, word, fun a isA b isB => ?_⟩
    obtain ⟨m, _, isM⟩ := mem_map.1 (read a isA)
    obtain ⟨n, _, isN⟩ := mem_map.1 (read b isB)
    rw [← isM, ← isN, LinearOrder.compare_eq_compareOfLessAndEq]
    exact ⟨rfl, by simp [clashes, word]⟩

end EnumInfo

namespace EnumRegistry

/-- The registries that come from an empty one by defining, reserving, and installing what was read or refused. -/
inductive Reached : EnumRegistry → Prop
  | empty : Reached {}
  | reserve {registry : EnumRegistry} : registry.Reached → Reached registry.reserve.2
  | define {registry : EnumRegistry} (definition : EnumDef) : registry.Reached → Reached (registry.define definition).2
  | install {registry : EnumRegistry} (id : EnumId) (definition : EnumDef) :
    registry.Reached → Reached (registry.install id definition.validate).2
  | refuse {registry : EnumRegistry} (id : EnumId) (error : EnumError) :
    registry.Reached → Reached (registry.install id (.error error)).2

variable {registry : EnumRegistry} {info : EnumInfo}

theorem mem_install {id : EnumId} {read : Except EnumError EnumInfo}
    (mem : .defined info ∈ (registry.install id read).2.entries) : .defined info ∈ registry.entries ∨ read = .ok info := by
  unfold install at mem
  split at mem
  · cases read with
    | ok other => exact (mem_or_eq_of_mem_set mem).imp (fun mem => mem) fun same => by cases same; rfl
    | error e => exact (mem_or_eq_of_mem_set mem).imp (fun mem => mem) fun same => by cases same
  · exact .inl mem

theorem Reached.read (h : registry.Reached) (mem : .defined info ∈ registry.entries) :
    ∃ definition : EnumDef, definition.validate = .ok info := by
  induction h with
  | empty => cases mem
  | reserve h ih => exact ih (by simpa [EnumRegistry.reserve] using mem)
  | @define registry definition h ih =>
    have mem : .defined info ∈ (registry.reserve.2.install registry.reserve.1 definition.validate).2.entries := by
      rw [EnumRegistry.define] at mem
      dsimp only at mem
      split at mem <;> rename_i same <;> rwa [same]
    exact (mem_install mem).elim (fun mem => ih (by simpa [EnumRegistry.reserve] using mem)) fun read => ⟨definition, read⟩
  | install id definition h ih => exact (mem_install mem).elim ih fun read => ⟨definition, read⟩
  | refuse id error h ih => exact (mem_install mem).elim ih fun read => by cases read

/-- The order of an enumeration over integers or texts is the strict order of the values, whatever was defined, reserved,
installed or refused. It is what comparing variants by name says, and no other order of the variants is strict. What is
not defined has no order. -/
theorem ordering_strict (h : registry.Reached) (id : EnumId) :
    ((∀ info, registry.entries[id.index]? ≠ some (.defined info)) → registry.ordering id = []) ∧
    ∀ info, registry.get? id = some info → info.backing.isInteger = true ∨ info.backing = .str →
      (registry.ordering id).Perm (List.range info.variants.length) ∧
      (registry.ordering id).Pairwise info.Precedes ∧
      (∀ (p q i j : Nat) (a b : EnumVariant), (registry.ordering id)[p]? = some i →
        (registry.ordering id)[q]? = some j → info.variants[i]? = some a → info.variants[j]? = some b →
        (p < q ↔ registry.compareVariants? id a.name b.name = some .lt)) ∧
      ∀ other : List Nat, other.Perm (List.range info.variants.length) → other.Pairwise info.Precedes →
        other = registry.ordering id := by
  refine ⟨fun undefined => ?_, fun info isInfo kind => ?_⟩
  · rw [ordering, get?]
    split
    · rfl
    · rename_i looked
      split at looked
      · rename_i found
        exact (undefined _ found).elim
      · cases looked
  · have isEntry : .defined info ∈ registry.entries := by
      rw [get?] at isInfo
      split at isInfo
      · rename_i found
        cases isInfo
        exact mem_of_getElem? found
      · cases isInfo
    obtain ⟨definition, done⟩ := h.read isEntry
    have linear := EnumInfo.isLinear_of_validate done kind
    have order : registry.ordering id = info.sorted.map (·.2) := by
      rw [ordering, isInfo]
      rfl
    rw [order]
    refine ⟨info.sorted_perm, linear.pairwise_sorted, fun p q i j a b isI isJ isA isB => ?_, fun other perm strict => ?_⟩
    · have compared : registry.compareVariants? id a.name b.name = some .lt ↔ info.Precedes i j := by
        simp [compareVariants?, variant?, isInfo, EnumInfo.variant?_name linear.1 isA,
          EnumInfo.variant?_name linear.1 isB, EnumInfo.Precedes, isA, isB]
      exact (linear.lt_iff isI isJ).trans compared.symm
    · exact (perm.trans info.sorted_perm.symm).eq_of_pairwise
        (fun i j _ _ first second => (linear.asymm first second).elim) strict linear.pairwise_sorted

def levels : EnumDef where
  name := "Level"
  backing := .int8
  variants := [⟨"high", some (.integer 7), {}⟩, ⟨"low", some (.integer (-1)), {}⟩, ⟨"middle", none, {}⟩]

theorem ordering_strict_levels : (define (reserve {}).2 levels).2.ordering ⟨0⟩ = [] ∧
    (define (reserve {}).2 levels).2.ordering ⟨1⟩ = [1, 2, 0] := by
  have reached : (define (reserve {}).2 levels).2.Reached := .define levels (.reserve .empty)
  refine ⟨(ordering_strict reached ⟨0⟩).1 (fun info found => by cases found), ?_⟩
  obtain ⟨_, _, _, only⟩ := (ordering_strict reached ⟨1⟩).2
    ⟨"Level", .int8, [⟨"high", .int 7⟩, ⟨"low", .int (-1)⟩, ⟨"middle", .int 0⟩], {}⟩ rfl (.inl rfl)
  refine (only [1, 2, 0] (by decide) ?_).symm
  simp [EnumInfo.Precedes, compare?, compare_lt_iff_lt]

end EnumRegistry

end SemanticChecker
