/-
The comparison of `json.c`. The values of json-c are trees: integers have 64 bits, a string carries
its length and may hold NUL bytes, and an object is a table with C strings as keys.
-/
import Mathlib.Data.List.TakeWhile
import CMx.Lib.Table
import CMx.Mqtt.Body

namespace CMx

open Mqtt (Bytes CString)

/-! ## Values -/

/-- A `json_object`; its entries are in the order in which they were added. -/
inductive Json where
  | null
  | boolean (b : Bool)
  | int (i : Int64)
  | double (d : Float)
  | string (s : Bytes)
  | array (elems : List Json)
  | object (entries : List (CString × Json))

namespace Json

/-- An induction over a value has a hypothesis for each element and for each entry. -/
@[induction_eliminator]
theorem induction {P : Json → Prop} (null : P null) (boolean : ∀ b, P (boolean b)) (int : ∀ i, P (int i))
    (double : ∀ d, P (double d)) (string : ∀ s, P (string s)) (array : ∀ elems, (∀ a ∈ elems, P a) → P (array elems))
    (object : ∀ entries, (∀ e ∈ entries, P e.2) → P (object entries)) (a : Json) : P a := by
  refine @Json.rec P (fun elems => ∀ a ∈ elems, P a) (fun entries => ∀ e ∈ entries, P e.2) (fun e => P e.2)
    null boolean int double string array object ?_ ?_ ?_ ?_ ?_ a
  · intro a ha
    cases ha
  · intro a elems ha helems
    exact List.forall_mem_cons.2 ⟨ha, helems⟩
  · intro e he
    cases he
  · intro e entries he hentries
    exact List.forall_mem_cons.2 ⟨he, hentries⟩
  · intro key value hvalue
    exact hvalue

/-- No object has a key twice, and no number is a floating-point number. -/
inductive UniqueKeys : Json → Prop where
  | null : UniqueKeys null
  | boolean (b : Bool) : UniqueKeys (boolean b)
  | int (i : Int64) : UniqueKeys (int i)
  | string (s : Bytes) : UniqueKeys (string s)
  | array (elems : List Json) (h : ∀ a ∈ elems, UniqueKeys a) : UniqueKeys (array elems)
  | object (entries : List (CString × Json)) (hkeys : (entries.map Prod.fst).Nodup)
      (h : ∀ e ∈ entries, UniqueKeys e.2) :
    UniqueKeys (object entries)

end Json

/-- A value of json-c without floating-point numbers. -/
structure JsonValue where
  json : Json
  unique : json.UniqueKeys

/-! ## What `json.c` uses of json-c -/

/-- `json_object_object_get_ex` of the entries of an object, and `json_object_get_int`. -/
structure JsonC where
  jsonObjectObjectGet : List (CString × Json) → CString → Option Json
  jsonObjectGetInt : Int64 → Int64

def int32Min : Int64 := -2147483648
def int32Max : Int64 := 2147483647

def saturate (i : Int64) : Int64 :=
  if i ≤ int32Min then int32Min else if i ≥ int32Max then int32Max else i

/-- In an object, whose keys are unique, a key is found with its value; an integer saturates to 32 bits. -/
structure JsonC.Documented (lib : JsonC) : Prop where
  jsonObjectObjectGet : ∀ {entries : List (CString × Json)}, (entries.map Prod.fst).Nodup →
    ∀ key, lib.jsonObjectObjectGet entries key = entries.lookup key
  jsonObjectGetInt : ∀ i, lib.jsonObjectGetInt i = saturate i

/-- A search through the entries, and the saturated integer. -/
def jsonC : JsonC := ⟨fun entries key => entries.lookup key, saturate⟩

theorem jsonC_documented : jsonC.Documented := ⟨fun _ _ => rfl, fun _ => rfl⟩

/-- The C string at the bytes of a string, as `strcmp` has it. -/
def cString (s : Bytes) : Bytes := s.takeWhile (· ≠ 0)

/-! ## Comparing -/

def jsonCompareFlagNonStrict : UInt32 := 0
def jsonCompareFlagStrictObjects : UInt32 := 1
def jsonCompareFlagStrictArrays : UInt32 := 2
def jsonCompareFlagStrict : UInt32 := jsonCompareFlagStrictObjects ||| jsonCompareFlagStrictArrays

def jsonCompareString (obj pattern : Bytes) : Bool := pattern.length = obj.length && cString pattern = cString obj

section Compare

variable (lib : JsonC) (flags : UInt32)

mutual

/-- `json_compare`; values of two types are not compared any further. -/
def jsonCompare (obj : Json) : (pattern : Json) → Bool
  | .object pattern =>
    match obj with
    | .object obj =>
      if flags &&& jsonCompareFlagStrictObjects ≠ 0 then
        obj.length = pattern.length && jsonComparePatternKeys obj pattern &&
          obj.all fun e => (lib.jsonObjectObjectGet pattern e.1).isSome
      else jsonComparePatternKeys obj pattern
    | _ => false
  | .array pattern =>
    match obj with
    | .array obj =>
      if flags &&& jsonCompareFlagStrictArrays ≠ 0 then
        obj.length = pattern.length && jsonCompareInOrder obj pattern
      else jsonCompareAnyOrder obj pattern
    | _ => false
  | .string pattern =>
    match obj with
    | .string obj => jsonCompareString obj pattern
    | _ => false
  | .boolean pattern =>
    match obj with
    | .boolean obj => obj = pattern
    | _ => false
  | .int pattern =>
    match obj with
    | .int obj => lib.jsonObjectGetInt obj = lib.jsonObjectGetInt pattern
    | _ => false
  | .double pattern =>
    match obj with
    | .double obj => obj == pattern
    | _ => false
  | .null =>
    match obj with
    | .null => true
    | _ => false
termination_by structural pattern => pattern

/-- The strict loop of `json_compare_array`. -/
def jsonCompareInOrder (obj : List Json) : (pattern : List Json) → Bool
  | [] => true
  | patternElem :: pattern =>
    match obj with
    | [] => true
    | objElem :: obj => jsonCompare objElem patternElem && jsonCompareInOrder obj pattern
termination_by structural pattern => pattern

/-- Its other loops: every element of the pattern has to be found. -/
def jsonCompareAnyOrder (obj : List Json) : (pattern : List Json) → Bool
  | [] => true
  | patternElem :: pattern =>
      (obj.any fun objElem => jsonCompare objElem patternElem) && jsonCompareAnyOrder obj pattern
termination_by structural pattern => pattern

/-- The loop of `json_compare_object` over the entries of the pattern. -/
def jsonComparePatternKeys (obj : List (CString × Json)) : (pattern : List (CString × Json)) → Bool
  | [] => true
  | (key, patval) :: pattern =>
    match lib.jsonObjectObjectGet obj key with
    | none => false
    | some objval => jsonCompare objval patval && jsonComparePatternKeys obj pattern
termination_by structural pattern => pattern

end

end Compare

/-! ## What a comparison says -/

section Spec

variable {lib : JsonC} {flags : UInt32}

/-- Two values compare as equal. -/
def Matches (lib : JsonC) (flags : UInt32) (obj pattern : Json) : Prop := jsonCompare lib flags obj pattern = true

/-- Every key of the pattern is found in the object, with a related value. -/
def JsonC.Covers (lib : JsonC) (R : Json → Json → Prop) (obj pattern : List (CString × Json)) : Prop :=
  ∀ e ∈ pattern, ∃ v, lib.jsonObjectObjectGet obj e.1 = some v ∧ R v e.2

theorem jsonCompareInOrder_iff : ∀ {obj pattern : List Json},
    (obj.length = pattern.length ∧ jsonCompareInOrder lib flags obj pattern = true) ↔
        List.Forall₂ (Matches lib flags) obj pattern
  | [], [] => by simp [jsonCompareInOrder]
  | [], _ :: _ => by simp
  | _ :: _, [] => by simp
  | a :: obj, b :: pattern => by
    have ih := @jsonCompareInOrder_iff obj pattern
    rw [List.forall₂_cons, ← ih, jsonCompareInOrder, Bool.and_eq_true, List.length_cons, List.length_cons, Nat.succ_inj,
      and_left_comm]
    rfl

theorem jsonCompareAnyOrder_iff : ∀ {obj pattern : List Json},
    jsonCompareAnyOrder lib flags obj pattern = true ↔ ∀ b ∈ pattern, ∃ a ∈ obj, Matches lib flags a b
  | obj, [] => by simp [jsonCompareAnyOrder]
  | obj, b :: pattern => by
    rw [List.forall_mem_cons, ← jsonCompareAnyOrder_iff, jsonCompareAnyOrder, Bool.and_eq_true, List.any_eq_true]
    rfl

theorem jsonComparePatternKeys_iff {obj : List (CString × Json)} : ∀ {pattern : List (CString × Json)},
    jsonComparePatternKeys lib flags obj pattern = true ↔ lib.Covers (Matches lib flags) obj pattern
  | [] => by simp [jsonComparePatternKeys, JsonC.Covers]
  | (key, patval) :: pattern => by
    rw [JsonC.Covers, List.forall_mem_cons, ← JsonC.Covers, ← jsonComparePatternKeys_iff, jsonComparePatternKeys]
    cases lib.jsonObjectObjectGet obj key with
    | none => simp
    | some objval =>
      rw [Bool.and_eq_true]
      simp [Matches]

theorem matches_array_iff {obj pattern : List Json} : Matches lib flags (.array obj) (.array pattern) ↔
    if flags &&& jsonCompareFlagStrictArrays ≠ 0 then List.Forall₂ (Matches lib flags) obj pattern
    else ∀ b ∈ pattern, ∃ a ∈ obj, Matches lib flags a b := by
  rw [Matches, jsonCompare]
  split
  · rw [Bool.and_eq_true, decide_eq_true_iff, jsonCompareInOrder_iff]
  · exact jsonCompareAnyOrder_iff

theorem matches_object_iff {obj pattern : List (CString × Json)} : Matches lib flags (.object obj) (.object pattern) ↔
    lib.Covers (Matches lib flags) obj pattern ∧ (flags &&& jsonCompareFlagStrictObjects ≠ 0 →
      obj.length = pattern.length ∧ ∀ e ∈ obj, (lib.jsonObjectObjectGet pattern e.1).isSome = true) := by
  rw [Matches, jsonCompare]
  split
  · rename_i hstrict
    rw [Bool.and_eq_true, Bool.and_eq_true, decide_eq_true_iff, jsonComparePatternKeys_iff, List.all_eq_true]
    constructor
    · rintro ⟨⟨hlen, hcovers⟩, hkeys⟩
      exact ⟨hcovers, fun _ => ⟨hlen, hkeys⟩⟩
    · rintro ⟨hcovers, hboth⟩
      exact ⟨⟨(hboth hstrict).1, hcovers⟩, (hboth hstrict).2⟩
  · rename_i hloose
    rw [jsonComparePatternKeys_iff]
    exact ⟨fun hcovers => ⟨hcovers, fun hstrict => absurd hstrict hloose⟩, fun h => h.1⟩

/-- Objects with unique keys are tables. -/
theorem matches_tables_iff (hlib : lib.Documented) {obj pattern : List (CString × Json)}
    (hobj : (obj.map Prod.fst).Nodup) (hpattern : (pattern.map Prod.fst).Nodup) :
    Matches lib flags (.object obj) (.object pattern) ↔ Table.Covers (Matches lib flags) obj pattern ∧
      (flags &&& jsonCompareFlagStrictObjects ≠ 0 → obj.length = pattern.length ∧ Table.KeysIn obj pattern) := by
  rw [matches_object_iff]
  simp only [JsonC.Covers, Table.Covers, Table.KeysIn, hlib.jsonObjectObjectGet hobj, hlib.jsonObjectObjectGet hpattern]

end Spec

/-! ## A preorder -/

section Preorder

variable {lib : JsonC} {flags : UInt32}

theorem matches_refl (hlib : lib.Documented) {a : Json} (h : a.UniqueKeys) : Matches lib flags a a := by
  induction h with
  | null => rfl
  | boolean b => exact decide_eq_true rfl
  | int i => exact decide_eq_true rfl
  | string s => simp [Matches, jsonCompare, jsonCompareString]
  | array elems _ ih =>
    rw [matches_array_iff]
    split
    · exact List.forall₂_same.2 ih
    · exact fun a ha => ⟨a, ha, ih a ha⟩
  | object entries hkeys _ ih =>
    rw [matches_tables_iff hlib hkeys hkeys]
    exact ⟨Table.Covers.refl hkeys ih, fun _ => ⟨rfl, Table.KeysIn.refl entries⟩⟩

theorem forall₂_trans {R : Json → Json → Prop} : ∀ {as bs cs : List Json},
    (∀ c ∈ cs, ∀ a ∈ as, ∀ b ∈ bs, R a b → R b c → R a c) →
    List.Forall₂ R as bs → List.Forall₂ R bs cs → List.Forall₂ R as cs
  | [], [], [], _, _, _ => .nil
  | a :: as, b :: bs, c :: cs, h, hab, hbc => by
    rw [List.forall₂_cons] at hab hbc ⊢
    refine ⟨h c (List.mem_cons_self ..) a (List.mem_cons_self ..) b (List.mem_cons_self ..) hab.1 hbc.1,
      forall₂_trans (fun c' hc' a' ha' b' hb' => ?_) hab.2 hbc.2⟩
    exact h c' (List.mem_cons_of_mem _ hc') a' (List.mem_cons_of_mem _ ha') b' (List.mem_cons_of_mem _ hb')

theorem forall₂_imp {R S : Json → Json → Prop} : ∀ {as bs : List Json}, (∀ a ∈ as, ∀ b ∈ bs, R a b → S a b) →
    List.Forall₂ R as bs → List.Forall₂ S as bs
  | [], [], _, _ => .nil
  | a :: as, b :: bs, h, hr => by
    rw [List.forall₂_cons] at hr ⊢
    refine ⟨h a (List.mem_cons_self ..) b (List.mem_cons_self ..) hr.1, forall₂_imp (fun a' ha' b' hb' => ?_) hr.2⟩
    exact h a' (List.mem_cons_of_mem _ ha') b' (List.mem_cons_of_mem _ hb')

/-- Values compare by their leaves alone, so the induction is over the last pattern: with each part of
it, comparisons compose. -/
theorem matches_trans (hlib : lib.Documented) {a b c : Json} (ha : a.UniqueKeys) (hb : b.UniqueKeys) (hc : c.UniqueKeys)
    (hab : Matches lib flags a b) (hbc : Matches lib flags b c) : Matches lib flags a c := by
  induction hc generalizing a b with
  | null =>
    cases b with
    | null => exact hab
    | _ => cases hbc
  | boolean z =>
    cases b with
    | boolean y =>
      cases a with
      | boolean x =>
        exact decide_eq_true ((of_decide_eq_true hab).trans (of_decide_eq_true hbc))
      | _ => cases hab
    | _ => cases hbc
  | int z =>
    cases b with
    | int y =>
      cases a with
      | int x =>
        exact decide_eq_true ((of_decide_eq_true hab).trans (of_decide_eq_true hbc))
      | _ => cases hab
    | _ => cases hbc
  | string z =>
    cases b with
    | string y =>
      cases a with
      | string x =>
        simp only [Matches, jsonCompare, jsonCompareString, Bool.and_eq_true, decide_eq_true_iff] at hab hbc ⊢
        exact ⟨hbc.1.trans hab.1, hbc.2.trans hab.2⟩
      | _ => cases hab
    | _ => cases hbc
  | array zs _ ih =>
    cases b with
    | array ys =>
      cases a with
      | array xs =>
        obtain _ | _ | _ | _ | ⟨_, hxs⟩ := ha
        obtain _ | _ | _ | _ | ⟨_, hys⟩ := hb
        rw [matches_array_iff] at hab hbc ⊢
        -- elements in order with the flag, any order without it
        split at hab
        · rename_i hstrict
          rw [if_pos hstrict] at hbc ⊢
          exact forall₂_trans (fun c hc a ha b hb h h' => ih c hc (hxs a ha) (hys b hb) h h') hab hbc
        · rename_i hloose
          rw [if_neg hloose] at hbc ⊢
          intro c hc
          obtain ⟨b, hb, hmatch'⟩ := hbc c hc
          obtain ⟨a, ha, hmatch⟩ := hab b hb
          exact ⟨a, ha, ih c hc (hxs a ha) (hys b hb) hmatch hmatch'⟩
      | _ => cases hab
    | _ => cases hbc
  | object zs hzkeys _ ih =>
    cases b with
    | object ys =>
      cases a with
      | object xs =>
        obtain _ | _ | _ | _ | _ | ⟨_, hxkeys, hxs⟩ := ha
        obtain _ | _ | _ | _ | _ | ⟨_, hykeys, hys⟩ := hb
        rw [matches_tables_iff hlib hxkeys hykeys] at hab
        rw [matches_tables_iff hlib hykeys hzkeys] at hbc
        rw [matches_tables_iff hlib hxkeys hzkeys]
        obtain ⟨hcovers, hstrict⟩ := hab
        obtain ⟨hcovers', hstrict'⟩ := hbc
        have hcompose : ∀ e ∈ zs, ∀ c ∈ xs, ∀ d ∈ ys, Matches lib flags c.2 d.2 → Matches lib flags d.2 e.2 →
            Matches lib flags c.2 e.2 := fun e he c hc d hd h h' => ih e he (hxs c hc) (hys d hd) h h'
        refine ⟨hcovers.trans hcompose hcovers', fun h => ⟨?_, ?_⟩⟩
        · exact (hstrict h).1.trans (hstrict' h).1
        · exact (hstrict h).2.trans (hstrict' h).2
      | _ => cases hab
    | _ => cases hbc

/-- Whatever the flags, comparing is a preorder. -/
theorem jsonCompare_preorder (hlib : lib.Documented) (flags : UInt32) :
    (∀ a : JsonValue, jsonCompare lib flags a.json a.json = true) ∧
      ∀ a b c : JsonValue, jsonCompare lib flags a.json b.json = true → jsonCompare lib flags b.json c.json = true →
        jsonCompare lib flags a.json c.json = true :=
  ⟨fun a => matches_refl hlib a.unique, fun a b c hab hbc => matches_trans hlib a.unique b.unique c.unique hab hbc⟩

def keyX : CString := ⟨[0x78], by decide⟩
def keyY : CString := ⟨[0x79], by decide⟩

/-- An object that matches a smaller one, which matches an empty one. -/
theorem jsonCompare_preorder_objects :
    jsonCompare jsonC jsonCompareFlagNonStrict (.object [(keyX, .int 1), (keyY, .array [.int 2, .int 3])])
      (.object []) = true := by
  have ha : (Json.object [(keyX, .int 1), (keyY, .array [.int 2, .int 3])]).UniqueKeys := by
    refine .object _ (by decide) ?_
    simp only [List.forall_mem_cons]
    refine ⟨.int _, .array _ ?_, nofun⟩
    simp only [List.forall_mem_cons]
    exact ⟨.int _, .int _, nofun⟩
  have hb : (Json.object [(keyY, .array [.int 3])]).UniqueKeys := by
    refine .object _ (by decide) ?_
    simp only [List.forall_mem_cons]
    refine ⟨.array _ ?_, nofun⟩
    simp only [List.forall_mem_cons]
    exact ⟨.int _, nofun⟩
  have hab : jsonCompare jsonC jsonCompareFlagNonStrict (.object [(keyX, .int 1), (keyY, .array [.int 2, .int 3])])
      (.object [(keyY, .array [.int 3])]) = true := by decide +kernel
  have hbc : jsonCompare jsonC jsonCompareFlagNonStrict (.object [(keyY, .array [.int 3])]) (.object []) = true := by
    decide +kernel
  exact (jsonCompare_preorder jsonC_documented jsonCompareFlagNonStrict).2 ⟨_, ha⟩ ⟨_, hb⟩
    ⟨_, .object [] List.nodup_nil nofun⟩ hab hbc

end Preorder

/-! ## Fewer flags -/

section Relaxed

variable {lib : JsonC} {f g : UInt32}

/-- A flag that is set still is with more of them. -/
theorem flag_of_subset (h : g &&& f = g) {flag : UInt32} (hflag : g &&& flag ≠ 0) : f &&& flag ≠ 0 := by
  intro hzero
  refine hflag ?_
  rw [← h, UInt32.and_assoc, hzero, UInt32.and_zero]

/-- What matches with some flags matches with fewer of them; the induction is over the pattern. -/
theorem matches_mono (h : g &&& f = g) {a b : Json} (hab : Matches lib f a b) : Matches lib g a b := by
  induction b generalizing a with
  | null | boolean _ | int _ | double _ | string _ =>
    cases a with
    | _ => exact hab
  | array bs ih =>
    cases a with
    | array as =>
      rw [matches_array_iff] at hab ⊢
      by_cases hg : g &&& jsonCompareFlagStrictArrays ≠ 0
      · rw [if_pos (flag_of_subset h hg)] at hab
        rw [if_pos hg]
        exact forall₂_imp (fun a _ b hb => ih b hb) hab
      · rw [if_neg hg]
        intro b hb
        by_cases hf : f &&& jsonCompareFlagStrictArrays ≠ 0
        · -- the element at the same place
          rw [if_pos hf] at hab
          obtain ⟨i, rfl⟩ := List.mem_iff_get.1 hb
          have hi : i < as.length := by rw [hab.length_eq]; exact i.2
          exact ⟨as.get ⟨i, hi⟩, List.get_mem .., ih _ hb (hab.get hi i.2)⟩
        · rw [if_neg hf] at hab
          obtain ⟨a, ha, hmatch⟩ := hab b hb
          exact ⟨a, ha, ih b hb hmatch⟩
    | _ => cases hab
  | object bs ih =>
    cases a with
    | object as =>
      rw [matches_object_iff] at hab ⊢
      obtain ⟨hcovers, hstrict⟩ := hab
      refine ⟨fun e he => ?_, fun hg => hstrict (flag_of_subset h hg)⟩
      obtain ⟨v, hv, hmatch⟩ := hcovers e he
      exact ⟨v, hv, ih e he hmatch⟩
    | _ => cases hab

/-- For all values, floating-point numbers among them, and whatever the accessors find: a match stays one when flags
are taken away. -/
theorem jsonCompare_relaxed (h : g &&& f = g) (a b : Json) (hab : jsonCompare lib f a b = true) :
    jsonCompare lib g a b = true :=
  matches_mono h hab

/-- Equal arrays, compared in order and in any order. -/
theorem jsonCompare_relaxed_array :
    jsonCompare jsonC 0 (.array [.int 1, .object []]) (.array [.int 1, .object []]) = true :=
  jsonCompare_relaxed (f := jsonCompareFlagStrict) (by decide) _ _ (by decide)

end Relaxed

/-! ## What a value means -/

/-- JSON values as such: an object is a partial function from its keys. -/
inductive Value where
  | null
  | boolean (b : Bool)
  | int (i : Int64)
  | double (d : Float)
  | string (s : Bytes)
  | array (elems : List Value)
  | object (fields : CString → Option Value)

namespace Json

section ValueWith

variable (onInt : Int64 → Int64) (onString : Bytes → Bytes)

mutual

/-- The value of a tree, with every integer and every string as a function has it. -/
def valueWith : Json → Value
  | null => .null
  | boolean b => .boolean b
  | int i => .int (onInt i)
  | double d => .double d
  | string s => .string (onString s)
  | array elems => .array (elemsWith elems)
  | object entries => .object (fieldsWith entries)
termination_by structural a => a

def elemsWith : List Json → List Value
  | [] => []
  | a :: elems => valueWith a :: elemsWith elems
termination_by structural elems => elems

def fieldsWith : List (CString × Json) → CString → Option Value
  | [], _ => none
  | (key, a) :: entries, k => if k = key then some (valueWith a) else fieldsWith entries k
termination_by structural entries => entries

end

end ValueWith

/-- The value of a tree. -/
def value (a : Json) : Value := a.valueWith id id

/-- A string of the same length, with nothing but NUL bytes behind its first one. -/
def blurString (s : Bytes) : Bytes := cString s ++ List.replicate (s.length - (cString s).length) 0

/-- The value with its integers saturated to 32 bits and its strings blurred behind their first NUL. -/
def blurred (a : Json) : Value := a.valueWith saturate blurString

variable {onInt : Int64 → Int64} {onString : Bytes → Bytes}

theorem elemsWith_eq : ∀ elems : List Json, elemsWith onInt onString elems = elems.map (valueWith onInt onString)
  | [] => rfl
  | a :: elems => by rw [elemsWith, elemsWith_eq elems, List.map_cons]

theorem fieldsWith_eq : ∀ (entries : List (CString × Json)) (k : CString),
    fieldsWith onInt onString entries k = (entries.lookup k).map (valueWith onInt onString)
  | [], _ => rfl
  | (key, a) :: entries, k => by
    rw [fieldsWith, List.lookup_cons, fieldsWith_eq entries k]
    by_cases hk : k = key
    · rw [if_pos hk, beq_iff_eq.2 hk]
      rfl
    · rw [if_neg hk, beq_false_of_ne hk]

/-- Two trees mean the same. -/
def Same (onInt : Int64 → Int64) (onString : Bytes → Bytes) (a b : Json) : Prop :=
  a.valueWith onInt onString = b.valueWith onInt onString

theorem same_array_iff {as bs : List Json} : Same onInt onString (array as) (array bs) ↔
    List.Forall₂ (Same onInt onString) as bs := by
  rw [Same, valueWith, valueWith, Value.array.injEq, elemsWith_eq, elemsWith_eq, ← List.forall₂_eq_eq_eq,
    List.forall₂_map_left_iff, List.forall₂_map_right_iff]
  rfl

theorem same_object_iff {as bs : List (CString × Json)} (has : (as.map Prod.fst).Nodup)
    (hbs : (bs.map Prod.fst).Nodup) :
    Same onInt onString (object as) (object bs) ↔
      Table.Covers (Same onInt onString) as bs ∧ as.length = bs.length ∧ Table.KeysIn as bs := by
  have hlookup : (Table.Covers (Same onInt onString) as bs ∧ Table.KeysIn as bs) ↔
      ∀ k, (as.lookup k).map (valueWith onInt onString) = (bs.lookup k).map (valueWith onInt onString) :=
    Table.covers_iff_lookup_eq hbs
  have hfields : fieldsWith onInt onString as = fieldsWith onInt onString bs ↔
      ∀ k, (as.lookup k).map (valueWith onInt onString) = (bs.lookup k).map (valueWith onInt onString) := by
    rw [funext_iff]
    simp only [fieldsWith_eq]
  rw [Same, valueWith, valueWith, Value.object.injEq, hfields, ← hlookup]
  constructor
  · rintro ⟨hcovers, hkeys⟩
    exact ⟨hcovers, Table.length_eq_of_keysIn has hbs hkeys hcovers.keysIn, hkeys⟩
  · rintro ⟨hcovers, -, hkeys⟩
    exact ⟨hcovers, hkeys⟩

theorem length_cString_le (s : Bytes) : (cString s).length ≤ s.length := (List.takeWhile_prefix _).length_le

theorem length_blurString (s : Bytes) : (blurString s).length = s.length := by
  have hle := length_cString_le s
  rw [blurString, List.length_append, List.length_replicate]
  omega

theorem cString_blurString (s : Bytes) : cString (blurString s) = cString s := by
  have hfront : ∀ c ∈ cString s, decide (c ≠ 0) = true := fun c hc =>
    List.mem_takeWhile_imp (p := fun c => decide (c ≠ 0)) hc
  rw [blurString, cString, List.takeWhile_append_of_pos hfront]
  cases s.length - (cString s).length with
  | zero => simp [cString]
  | succ n => simp [cString, List.replicate_succ]

/-- Blurred strings are equal if `json_compare_string` finds them equal. -/
theorem blurString_eq_iff {s t : Bytes} :
    blurString s = blurString t ↔ t.length = s.length ∧ cString t = cString s := by
  constructor
  · intro h
    refine ⟨?_, ?_⟩
    · rw [← length_blurString s, ← length_blurString t, h]
    · rw [← cString_blurString s, ← cString_blurString t, h]
  · rintro ⟨hlen, hstring⟩
    rw [blurString, blurString, hlen, hstring]

/-- What is the same is still the same when less is seen of it. -/
theorem same_imp {onInt' : Int64 → Int64} {onString' : Bytes → Bytes}
    (hint : ∀ i j, onInt i = onInt j → onInt' i = onInt' j)
    (hstring : ∀ s t, onString s = onString t → onString' s = onString' t) {a b : Json}
    (ha : a.UniqueKeys) (hb : b.UniqueKeys) (h : Same onInt onString a b) : Same onInt' onString' a b := by
  -- only the leaves are read with the two functions
  induction hb generalizing a with
  | null =>
    cases a with
    | null => rfl
    | _ => cases h
  | boolean y =>
    cases a with
    | boolean x => exact congrArg Value.boolean (Value.boolean.inj h)
    | _ => cases h
  | int y =>
    cases a with
    | int x => exact congrArg Value.int (hint x y (Value.int.inj h))
    | _ => cases h
  | string y =>
    cases a with
    | string x => exact congrArg Value.string (hstring x y (Value.string.inj h))
    | _ => cases h
  | array ys hys ih =>
    cases a with
    | array xs =>
      cases ha with
      | array _ hxs =>
        rw [same_array_iff] at h ⊢
        exact forall₂_imp (fun x hx y hy hxy => ih y hy (hxs x hx) hxy) h
    | _ => cases h
  | object ys hkeys hys ih =>
    cases a with
    | object xs =>
      cases ha with
      | object _ hkeys' hxs =>
        rw [same_object_iff hkeys' hkeys] at h ⊢
        exact ⟨h.1.imp fun d hd e he hde => ih e he (hxs d hd) hde, h.2⟩
    | _ => cases h

/-- A strict comparison is about blurred values. -/
theorem matches_strict_iff {lib : JsonC} (hlib : lib.Documented) {a b : Json} (ha : a.UniqueKeys) (hb : b.UniqueKeys) :
    Matches lib jsonCompareFlagStrict a b ↔ a.blurred = b.blurred := by
  have harrays : jsonCompareFlagStrict &&& jsonCompareFlagStrictArrays ≠ 0 := by decide
  have hobjects : jsonCompareFlagStrict &&& jsonCompareFlagStrictObjects ≠ 0 := by decide
  -- by induction on the second value; values of different types are alike in neither
  show _ ↔ Same saturate blurString a b
  induction hb generalizing a with
  | null =>
    cases a with
    | null => exact ⟨fun _ => rfl, fun _ => rfl⟩
    | _ => exact iff_of_false nofun nofun
  | boolean y =>
    cases a with
    | boolean x => simp [Matches, jsonCompare, Same, valueWith]
    | _ => exact iff_of_false nofun nofun
  | int y =>
    cases a with
    | int x => simp [Matches, jsonCompare, Same, valueWith, hlib.jsonObjectGetInt]
    | _ => exact iff_of_false nofun nofun
  | string y =>
    cases a with
    | string x => simp [Matches, jsonCompare, jsonCompareString, Same, valueWith, blurString_eq_iff]
    | _ => exact iff_of_false nofun nofun
  | array ys hys ih =>
    cases a with
    | array xs =>
      cases ha with
      | array _ hxs =>
        rw [matches_array_iff, if_pos harrays, same_array_iff]
        constructor
        · exact forall₂_imp fun x hx y hy => (ih y hy (hxs x hx)).1
        · exact forall₂_imp fun x hx y hy => (ih y hy (hxs x hx)).2
    | _ => exact iff_of_false nofun nofun
  | object ys hkeys hys ih =>
    cases a with
    | object xs =>
      cases ha with
      | object _ hkeys' hxs =>
        rw [matches_tables_iff hlib hkeys' hkeys, same_object_iff hkeys' hkeys]
        constructor
        · rintro ⟨hcovers, hstrict⟩
          exact ⟨hcovers.imp fun d hd e he => (ih e he (hxs d hd)).1, hstrict hobjects⟩
        · rintro ⟨hcovers, hstrict⟩
          exact ⟨hcovers.imp fun d hd e he => (ih e he (hxs d hd)).2, fun _ => hstrict⟩
    | _ => exact iff_of_false nofun nofun

end Json

/-! ## Equality -/

/-- A strict comparison decides equality of two values if and only if they do not become equal by
being blurred. -/
theorem jsonCompare_strict_iff {lib : JsonC} (hlib : lib.Documented) (a b : JsonValue) :
    (jsonCompare lib jsonCompareFlagStrict a.json b.json = true ↔ a.json.value = b.json.value) ↔
      ¬ (a.json.value ≠ b.json.value ∧ a.json.blurred = b.json.blurred) := by
  have hstrict : jsonCompare lib jsonCompareFlagStrict a.json b.json = true ↔ a.json.blurred = b.json.blurred :=
    Json.matches_strict_iff hlib a.unique b.unique
  have hblurred : a.json.value = b.json.value → a.json.blurred = b.json.blurred := by
    refine Json.same_imp (fun i j hij => ?_) (fun s t hst => ?_) a.unique b.unique
    · exact congrArg saturate hij
    · exact congrArg Json.blurString hst
  rw [hstrict]
  constructor
  · rintro hdecides ⟨hne, hsame⟩
    exact hne (hdecides.1 hsame)
  · intro hnot
    refine ⟨fun hsame => ?_, hblurred⟩
    by_contra hne
    exact hnot ⟨hne, hsame⟩

/-- The order of the keys does not count. -/
theorem jsonCompare_strict_iff_reordered :
    let a : Json := .object [(keyX, .int 1), (keyY, .string [0x61, 0, 0x62])]
    let b : Json := .object [(keyY, .string [0x61, 0, 0x62]), (keyX, .int 1)]
    jsonCompare jsonC jsonCompareFlagStrict a b = true ∧ a.value = b.value := by
  intro a b
  have ha : a.UniqueKeys := by
    refine .object _ (by decide) ?_
    simp only [List.forall_mem_cons]
    exact ⟨.int _, .string _, nofun⟩
  have hb : b.UniqueKeys := by
    refine .object _ (by decide) ?_
    simp only [List.forall_mem_cons]
    exact ⟨.string _, .int _, nofun⟩
  have hne : keyX ≠ keyY := by decide
  have hvalue : a.value = b.value := by
    refine congrArg Value.object (funext fun k => ?_)
    simp only [Json.fieldsWith]
    by_cases hk : k = keyX
    · rw [if_pos hk, if_neg (by rw [hk]; exact hne), if_pos hk]
    · rw [if_neg hk, if_neg hk]
  have hiff := (jsonCompare_strict_iff jsonC_documented ⟨a, ha⟩ ⟨b, hb⟩).2 fun h => h.1 hvalue
  exact ⟨hiff.2 hvalue, hvalue⟩

/-- Integers that saturate to the same one compare as equal. -/
theorem jsonCompare_saturates : ¬ ∀ lib : JsonC, lib.Documented → ∀ a b : JsonValue,
    jsonCompare lib jsonCompareFlagStrict a.json b.json = true ↔ a.json.value = b.json.value := by
  intro h
  have hvalue := (h jsonC jsonC_documented ⟨.int 3000000000, .int _⟩ ⟨.int 4000000000, .int _⟩).1 (by decide)
  have hint : (3000000000 : Int64) = 4000000000 := Value.int.inj hvalue
  exact absurd hint (by decide)

end CMx
