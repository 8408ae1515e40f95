import SmallScript.Memory.Display
import Mathlib

namespace SmallScript

/-- The two texts that a value has. -/
inductive Form where
  | display
  | inspection

def Form.cutText : Form → String
  | display => ""
  | inspection => "[Circular]"

theorem Table.mem_of_get? {α : Type} {t : Table α} {x : String} {a : α} (h : t.get? x = some a) :
    a ∈ t.map Prod.snd := by
  induction t with
  | nil => cases h
  | cons e t ih =>
      obtain ⟨k, b⟩ := e
      rw [get?] at h
      split at h
      · cases h
        exact List.mem_cons_self ..
      · exact List.mem_cons_of_mem _ (ih h)

namespace Memory

open Relation

variable {m : Memory} {form : Form} {v w : Value} {inside : List Value} {n : Nat}

def Holds (m : Memory) (v w : Value) : Prop :=
  match v with
  | .array a => w ∈ (m.arrayAt a).toList
  | .object o => w ∈ (m.objectAt o).properties.map Prod.snd
  | _ => False

/-- Nothing that is reached from the value holds itself. -/
def Acyclic (m : Memory) (v : Value) : Prop :=
  ∀ w, ReflTransGen m.Holds v w → ¬TransGen m.Holds w w

/-- The error object `p` is the name or the message of the error object `o`. -/
structure NamedBy (m : Memory) (o p : ObjectRef) : Prop where
  isError : m.isError (.object o) = true
  isError_name : m.isError (.object p) = true
  get? : ∃ key ∈ ["name", "message"], (m.objectAt o).properties.get? key = some (.object p)

/-- No error object comes back to itself by names and messages that are error objects. -/
def NamesEnd (m : Memory) : Prop := ∀ o, ¬TransGen m.NamedBy o o

section Texts

def leafText (m : Memory) : Value → String
  | .undefined => "undefined"
  | .null => "null"
  | .bool b => if b then "true" else "false"
  | .number x => Number.Text.ofDouble x
  | .string s => s
  | .builtin b => builtinText b
  | .closure c => functionText (m.closureAt c).definition
  | .array _ => ""
  | .object _ => "[object Object]"

/-- The values whose texts are part of that of `v`. -/
def parts (m : Memory) : Form → Value → List Value
  | .display, .array a => (m.arrayAt a).toList.filter fun w => !w.isNullish
  | .inspection, .array a => (m.arrayAt a).toList
  | .display, .object o =>
    match (m.objectAt o).cls with
    | .plain => []
    | .error => ["name", "message"].filterMap (m.objectAt o).properties.get?
  | .inspection, .object o => (m.objectAt o).properties.map Prod.snd
  | _, _ => []

def errorText (text : Value → String) (properties : Table Value) : String :=
  let name := ((properties.get? "name").map text).getD "Error"
  let message := ((properties.get? "message").map text).getD ""
  if message = "" then name else name ++ ": " ++ message

def propertiesText (text : Value → String) (properties : Table Value) : String :=
  match properties.map fun (k, v) => k ++ ": " ++ text v with
  | [] => "\x7b\x7d"
  | items => "\x7b " ++ ", ".intercalate items ++ " \x7d"

def fullText (m : Memory) (text : Value → String) : Form → Value → String
  | .display, .array a =>
    ",".intercalate ((m.arrayAt a).toList.map fun w => if w.isNullish then "" else text w)
  | .inspection, .array a => "[" ++ ", ".intercalate ((m.arrayAt a).toList.map text) ++ "]"
  | .display, .object o =>
    match (m.objectAt o).cls with
    | .plain => m.leafText (.object o)
    | .error => errorText text (m.objectAt o).properties
  | .inspection, .object o => propertiesText text (m.objectAt o).properties
  | .inspection, .string s => Text.Quoted.encode s
  | _, v => m.leafText v

/-- The value `v` stands inside itself, and the form writes no such value out. -/
def CutsInside (m : Memory) (form : Form) (inside : List Value) (v : Value) : Prop :=
  v ∈ inside ∧
    match form, v with
    | _, .array _ => True
    | .inspection, .object o => m.isError (.object o) = false
    | _, _ => False

def CutsNothing (_ : Form) (_ : List Value) (_ : Value) : Prop := False

/-- A text of `v` where it stands inside the values `inside`, with some values cut off. -/
inductive Renders (m : Memory) (Cuts : Form → List Value → Value → Prop) :
    Form → List Value → Value → String → Prop
  | cut {form : Form} {inside : List Value} {v : Value} (hcut : Cuts form inside v)
      (herror : form = .inspection → m.isError v = false) :
      Renders m Cuts form inside v form.cutText
  | full {form : Form} {inside : List Value} {v : Value} (text : Value → String)
      (hcut : ¬Cuts form inside v) (herror : form = .inspection → m.isError v = false)
      (hparts : ∀ w ∈ m.parts form v, Renders m Cuts form (v :: inside) w (text w)) :
      Renders m Cuts form inside v (m.fullText text form v)
  | afresh {inside : List Value} {v : Value} {t : String} (herror : m.isError v = true)
      (hdisplay : Renders m Cuts .display [] v t) : Renders m Cuts .inspection inside v t

/-- The text of a value in a form, with a fuel of `n`. -/
def textWith (m : Memory) (n : Nat) : Form → Value → String
  | .display, v => m.displayFrom n [] v
  | .inspection, v => m.inspectFrom n [] [] v

def fuelFor (m : Memory) : Form → Nat
  | .display => m.displayFuel
  | .inspection => m.inspectFuel

def text (m : Memory) : Form → Value → String
  | .display, v => m.display v
  | .inspection, v => m.inspect v

end Texts

theorem errorText_congr {text text' : Value → String} {properties : Table Value}
    (h : ∀ w ∈ ["name", "message"].filterMap properties.get?, text w = text' w) :
    errorText text properties = errorText text' properties := by
  have hget (key : String) (hkey : key ∈ ["name", "message"]) :
      (properties.get? key).map text = (properties.get? key).map text' :=
    Option.map_congr fun w hw => h w (List.mem_filterMap.mpr ⟨key, hkey, hw⟩)
  rw [errorText, errorText, hget "name" (by simp), hget "message" (by simp)]

theorem propertiesText_congr {text text' : Value → String} {properties : Table Value}
    (h : ∀ w ∈ properties.map Prod.snd, text w = text' w) :
    propertiesText text properties = propertiesText text' properties := by
  have hitems : (properties.map fun (k, v) => k ++ ": " ++ text v) =
      properties.map fun (k, v) => k ++ ": " ++ text' v :=
    List.map_congr_left fun p hp => congrArg (p.1 ++ ": " ++ ·) (h p.2 (List.mem_map_of_mem hp))
  rw [propertiesText, propertiesText, hitems]

theorem fullText_congr {text text' : Value → String}
    (h : ∀ w ∈ m.parts form v, text w = text' w) :
    m.fullText text form v = m.fullText text' form v := by
  match form, v with
  | .display, .array a =>
    simp only [fullText]
    congr 1
    refine List.map_congr_left fun w hw => ?_
    split
    · rfl
    · rename_i hnullish
      exact h w (List.mem_filter.mpr ⟨hw, by simpa using hnullish⟩)
  | .inspection, .array a =>
    have hitems : (m.arrayAt a).toList.map text = (m.arrayAt a).toList.map text' :=
      List.map_congr_left h
    rw [fullText, fullText, hitems]
  | .display, .object o =>
    simp only [fullText, parts] at h ⊢
    cases hcls : (m.objectAt o).cls with
    | plain => rfl
    | error => exact errorText_congr (by rwa [hcls] at h)
  | .inspection, .object o => exact propertiesText_congr h
  | .display, .undefined | .display, .null | .display, .bool _ | .display, .number _
  | .display, .string _ | .display, .builtin _ | .display, .closure _
  | .inspection, .undefined | .inspection, .null | .inspection, .bool _ | .inspection, .number _
  | .inspection, .string _ | .inspection, .builtin _ | .inspection, .closure _ => rfl

theorem holds_of_mem_parts (h : w ∈ m.parts form v) : m.Holds v w := by
  match form, v with
  | .display, .array a => exact List.mem_of_mem_filter h
  | .inspection, .array a => exact h
  | .display, .object o =>
    simp only [parts] at h
    split at h
    · cases h
    · obtain ⟨key, -, hkey⟩ := List.mem_filterMap.mp h
      exact Table.mem_of_get? hkey
  | .inspection, .object o => exact h

/-- There is one text at most, whatever is cut off. -/
theorem Renders.unique {Cuts : Form → List Value → Value → Prop} {t t' : String}
    (h : m.Renders Cuts form inside v t) (h' : m.Renders Cuts form inside v t') : t = t' := by
  induction h generalizing t' with
  | cut hcut herror =>
      cases h' with
      | cut => rfl
      | full _ hcut' => exact (hcut' hcut).elim
      | afresh herror' => simp [herror rfl] at herror'
  | full text hcut herror _ ih =>
      cases h' with
      | cut hcut' => exact (hcut hcut').elim
      | full text' _ _ hparts' => exact fullText_congr fun w hw => ih w hw (hparts' w hw)
      | afresh herror' => simp [herror rfl] at herror'
  | afresh herror _ ih =>
      cases h' with
      | cut _ herror' => simp [herror' rfl] at herror
      | full _ _ herror' => simp [herror' rfl] at herror
      | afresh _ hdisplay => exact ih hdisplay

/-- Where nothing holds itself, nothing is cut off. -/
theorem Renders.cutsNothing {t : String} (h : m.Renders m.CutsInside form inside v t)
    (hv : m.Acyclic v) (hinside : ∀ u ∈ inside, TransGen m.Holds u v) :
    m.Renders CutsNothing form inside v t := by
  induction h with
  | cut hcut => exact (hv _ .refl (hinside _ hcut.1)).elim
  | @full form inside v text _ herror _ ih =>
      refine .full text id herror fun w hw => ih w hw ?_ ?_
      · exact fun u hu => hv u (.head (holds_of_mem_parts hw) hu)
      · rintro u (_ | ⟨_, hu⟩)
        · exact .single (holds_of_mem_parts hw)
        · exact (hinside u hu).tail (holds_of_mem_parts hw)
  | afresh herror _ ih => exact .afresh herror (ih hv (by simp))

/-- Different references into a store of `k` are at most `k`. -/
theorem length_le_of_lt {refs : List Nat} {k : Nat} (hnodup : refs.Nodup) (hlt : ∀ r ∈ refs, r < k) :
    refs.length ≤ k := by
  have hsub : refs ⊆ List.range k := fun r hr => List.mem_range.mpr (hlt r hr)
  simpa using (hnodup.subperm hsub).length_le

section Display

/-- The arrays that the parts of `v` stand in. -/
def opened (v : Value) (path : List ArrayRef) : List ArrayRef :=
  match v with
  | .array a => a :: path
  | _ => path

/-- Where a display form is being written: inside the arrays of `path`, and after the error objects
of `chain` since the last of them. -/
structure Trail (m : Memory) (inside : List Value) (path : List ArrayRef) (chain : List ObjectRef)
    (v : Value) : Prop where
  mem_inside : ∀ a, .array a ∈ inside ↔ a ∈ path
  nodup_path : path.Nodup
  lt_of_mem_path : ∀ a ∈ path, a < m.arrays.size
  nodup_chain : chain.Nodup
  lt_of_mem_chain : ∀ o ∈ chain, o < m.objects.size
  named : ∀ o ∈ chain, ∀ p, v = .object p → m.isError v = true → TransGen m.NamedBy o p

/-- The depth to which a display form goes from there. -/
def displayNeed (m : Memory) (path : List ArrayRef) (chain : List ObjectRef) : Nat :=
  (m.arrays.size - path.length) * (m.objects.size + 2) + (m.objects.size - chain.length) + 1

theorem lt_of_mem_arrayAt {a : ArrayRef} (h : w ∈ (m.arrayAt a).toList) : a < m.arrays.size := by
  by_contra ha
  simp [arrayAt, Array.getElem?_eq_none (Nat.le_of_not_lt ha)] at h

theorem lt_of_error {o : ObjectRef} (h : (m.objectAt o).cls = .error) : o < m.objects.size := by
  by_contra ho
  rw [objectAt, Array.getElem?_eq_none (Nat.le_of_not_lt ho)] at h
  cases h

variable {path : List ArrayRef} {chain : List ObjectRef}

theorem displayNeed_opened (hpath : path.length < m.arrays.size) (a : ArrayRef) :
    m.displayNeed (a :: path) [] + 1 ≤ m.displayNeed path chain := by
  obtain ⟨k, hk⟩ : ∃ k, m.arrays.size - path.length = k + 1 := ⟨_, (Nat.succ_pred (by omega)).symm⟩
  have hk' : m.arrays.size - (path.length + 1) = k := by omega
  rw [displayNeed, displayNeed, List.length_cons, List.length_nil, hk, hk', Nat.add_mul]
  omega

theorem displayNeed_chain (hchain : chain.length < m.objects.size) (o : ObjectRef) :
    m.displayNeed path (o :: chain) + 1 = m.displayNeed path chain := by
  rw [displayNeed, displayNeed, List.length_cons]
  omega

/-- A part stands in one array more, or after one error object more. -/
theorem Trail.part (h : m.Trail inside path chain v)
    (hends : ∀ o, v = .object o → ¬TransGen m.NamedBy o o) (hcut : ¬m.CutsInside .display inside v)
    (hw : w ∈ m.parts .display v) :
    ∃ chain', m.Trail (v :: inside) (opened v path) chain' w ∧
      m.displayNeed (opened v path) chain' + 1 ≤ m.displayNeed path chain := by
  match v with
  | .array a =>
    have ha := lt_of_mem_arrayAt (List.mem_of_mem_filter hw)
    have hnot : a ∉ path := fun hpath => hcut ⟨(h.mem_inside a).mpr hpath, trivial⟩
    have hnodup : (a :: path).Nodup := List.nodup_cons.mpr ⟨hnot, h.nodup_path⟩
    have hlt : ∀ b ∈ a :: path, b < m.arrays.size := by simpa [ha] using h.lt_of_mem_path
    refine ⟨[], ⟨fun b => ?_, hnodup, hlt, .nil, by simp, by simp⟩, ?_⟩
    · simp [opened, h.mem_inside]
    · exact displayNeed_opened (length_le_of_lt hnodup hlt) a
  | .object o =>
    simp only [parts] at hw
    split at hw
    · cases hw
    · rename_i hcls
      have herror : m.isError (.object o) = true := by simp [Memory.isError, hcls]
      have hnot : o ∉ chain := fun ho => hends o rfl (h.named o ho o rfl herror)
      have hnodup : (o :: chain).Nodup := List.nodup_cons.mpr ⟨hnot, h.nodup_chain⟩
      have hlt : ∀ p ∈ o :: chain, p < m.objects.size := by
        simpa [lt_of_error hcls] using h.lt_of_mem_chain
      obtain ⟨key, hkey, hget⟩ := List.mem_filterMap.mp hw
      have hlink (p : ObjectRef) (hp : w = .object p) (herror' : m.isError w = true) :
          m.NamedBy o p := ⟨herror, hp ▸ herror', key, hkey, hp ▸ hget⟩
      refine ⟨o :: chain, ⟨fun b => ?_, h.nodup_path, h.lt_of_mem_path, hnodup, hlt, ?_⟩, ?_⟩
      · simp [opened, h.mem_inside]
      · rintro q (_ | ⟨_, hq⟩) p hp herror'
        · exact .single (hlink p hp herror')
        · exact (h.named q hq o rfl herror).tail (hlink p hp herror')
      · exact (displayNeed_chain (length_le_of_lt hnodup hlt) o).le

theorem displayFrom_cut {a : ArrayRef} (h : a ∈ path) :
    m.displayFrom (n + 1) path (.array a) = "" := by
  simp only [displayFrom, if_pos h]

theorem displayFrom_succ (h : ∀ a, v = .array a → a ∉ path) :
    m.displayFrom (n + 1) path v = m.fullText (m.displayFrom n (opened v path)) .display v := by
  cases v with
  | array a => simp only [displayFrom, if_neg (h a rfl), fullText, opened]
  | object o =>
      cases hcls : (m.objectAt o).cls with
      | plain => simp only [displayFrom, fullText, hcls, leafText]
      | error =>
          simp only [displayFrom, fullText, hcls, errorText, opened]
          cases (m.objectAt o).properties.get? "name" <;>
            cases (m.objectAt o).properties.get? "message" <;> rfl
  | _ => rfl

theorem renders_displayFrom (hm : m.NamesEnd) (h : m.Trail inside path chain v)
    (hn : m.displayNeed path chain ≤ n) :
    m.Renders m.CutsInside .display inside v (m.displayFrom n path v) := by
  induction n generalizing inside path chain v with
  | zero => exact (Nat.not_succ_le_zero _ hn).elim
  | succ n ih =>
      by_cases hcut : m.CutsInside .display inside v
      · obtain ⟨a, rfl, ha⟩ : ∃ a, v = .array a ∧ a ∈ path := by
          cases v with
          | array a => exact ⟨a, rfl, (h.mem_inside a).mp hcut.1⟩
          | _ => exact hcut.2.elim
        rw [displayFrom_cut ha]
        exact .cut hcut nofun
      · have hnot (a : ArrayRef) (hv : v = .array a) : a ∉ path := by
          subst v
          exact fun ha => hcut ⟨(h.mem_inside a).mpr ha, trivial⟩
        rw [displayFrom_succ hnot]
        refine .full _ hcut nofun fun w hw => ?_
        obtain ⟨chain', htrail, hneed⟩ := h.part (fun o _ => hm o) hcut hw
        exact ih htrail (Nat.le_of_succ_le_succ (hneed.trans hn))

theorem Trail.start (m : Memory) (v : Value) : m.Trail [] [] [] v :=
  ⟨by simp, .nil, by simp, .nil, by simp, by simp⟩

theorem displayNeed_le_displayFuel (m : Memory) : m.displayNeed [] [] ≤ m.displayFuel := by
  rw [displayNeed, displayFuel, Nat.add_mul]
  simp

/-- With the fuel of a display form, or more, it is a text of the value. -/
theorem renders_display (hm : m.NamesEnd) (hn : m.displayFuel ≤ n) (v : Value) :
    m.Renders m.CutsInside .display [] v (m.displayFrom n [] v) :=
  renders_displayFrom hm (.start m v) (m.displayNeed_le_displayFuel.trans hn)

/-- An error object that has a text does not come back to itself. -/
theorem Renders.not_named {t : String} (h : m.Renders m.CutsInside form inside v t)
    (hform : form = .display) (o : ObjectRef) (hv : v = .object o) : ¬TransGen m.NamedBy o o := by
  induction h generalizing o with
  | cut hcut =>
      subst hform hv
      exact hcut.2.elim
  | full text _ _ _ ih =>
      subst hform hv
      intro hcycle
      obtain ⟨p, hop, hback⟩ := TransGen.head'_iff.mp hcycle
      obtain ⟨key, hkey, hget⟩ := hop.get?
      have hpart : .object p ∈ m.parts .display (.object o) := by
        have hcls : (m.objectAt o).cls = .error := by simpa [isError] using hop.isError
        simp only [parts, hcls]
        exact List.mem_filterMap.mpr ⟨key, hkey, hget⟩
      exact ih _ hpart rfl p rfl (TransGen.tail' hback hop)
  | afresh => cases hform

/-- A text that a value has in the display form is the one that is written, whatever else is in the
memory. -/
theorem displayFrom_of_renders {t : String} (h : m.Renders m.CutsInside form inside v t)
    (hform : form = .display) (htrail : m.Trail inside path chain v)
    (hn : m.displayNeed path chain ≤ n) : m.displayFrom n path v = t := by
  have hends := h.not_named hform
  induction h generalizing path chain n with
  | @cut form inside v hcut _ =>
      subst hform
      obtain ⟨k, rfl⟩ := Nat.exists_eq_add_of_le' (Nat.le_of_add_left_le hn)
      cases v with
      | array a => exact displayFrom_cut ((htrail.mem_inside a).mp hcut.1)
      | _ => exact hcut.2.elim
  | @full form inside v text hcut _ hparts ih =>
      subst hform
      obtain ⟨k, rfl⟩ := Nat.exists_eq_add_of_le' (Nat.le_of_add_left_le hn)
      have hnot (a : ArrayRef) (hv : v = .array a) : a ∉ path := by
        subst v
        exact fun ha => hcut ⟨(htrail.mem_inside a).mpr ha, trivial⟩
      rw [displayFrom_succ hnot]
      refine fullText_congr fun w hw => ?_
      obtain ⟨chain', hpart, hneed⟩ := htrail.part hends hcut hw
      exact ih w hw rfl hpart (Nat.le_of_succ_le_succ (hneed.trans hn))
        ((hparts w hw).not_named rfl)
  | afresh => cases hform

theorem display_of_renders {t : String} (h : m.Renders m.CutsInside .display [] v t) :
    m.display v = t :=
  displayFrom_of_renders h rfl (.start m v) m.displayNeed_le_displayFuel

end Display

section Inspection

def openedObjects (v : Value) (objects : List ObjectRef) : List ObjectRef :=
  match v with
  | .object o => o :: objects
  | _ => objects

/-- Where an inspection form is being written: inside these arrays and these objects. -/
structure Nest (m : Memory) (inside : List Value) (arrays : List ArrayRef)
    (objects : List ObjectRef) : Prop where
  array_mem_inside : ∀ a, .array a ∈ inside ↔ a ∈ arrays
  object_mem_inside : ∀ o, .object o ∈ inside ↔ o ∈ objects
  nodup_arrays : arrays.Nodup
  lt_of_mem_arrays : ∀ a ∈ arrays, a < m.arrays.size
  nodup_objects : objects.Nodup
  lt_of_mem_objects : ∀ o ∈ objects, o < m.objects.size

def inspectNeed (m : Memory) (arrays : List ArrayRef) (objects : List ObjectRef) : Nat :=
  (m.arrays.size - arrays.length) + (m.objects.size - objects.length) + 1

variable {arrays : List ArrayRef} {objects : List ObjectRef}

theorem lt_of_mem_properties {o : ObjectRef}
    (h : w ∈ (m.objectAt o).properties.map Prod.snd) : o < m.objects.size := by
  by_contra ho
  rw [objectAt, Array.getElem?_eq_none (Nat.le_of_not_lt ho)] at h
  cases h

theorem Nest.part (h : m.Nest inside arrays objects) (herror : m.isError v = false)
    (hcut : ¬m.CutsInside .inspection inside v) (hw : w ∈ m.parts .inspection v) :
    m.Nest (v :: inside) (opened v arrays) (openedObjects v objects) ∧
      m.inspectNeed (opened v arrays) (openedObjects v objects) + 1 ≤
        m.inspectNeed arrays objects := by
  match v with
  | .array a =>
    have ha := lt_of_mem_arrayAt hw
    have hnot : a ∉ arrays := fun hmem => hcut ⟨(h.array_mem_inside a).mpr hmem, trivial⟩
    have hnodup : (a :: arrays).Nodup := List.nodup_cons.mpr ⟨hnot, h.nodup_arrays⟩
    have hlt : ∀ b ∈ a :: arrays, b < m.arrays.size := by simpa [ha] using h.lt_of_mem_arrays
    refine ⟨⟨fun b => ?_, fun p => ?_, hnodup, hlt, h.nodup_objects, h.lt_of_mem_objects⟩, ?_⟩
    · simp [opened, h.array_mem_inside]
    · simp [openedObjects, h.object_mem_inside]
    · have hlength := length_le_of_lt hnodup hlt
      simp only [inspectNeed, opened, openedObjects, List.length_cons] at hlength ⊢
      omega
  | .object o =>
    have ho := lt_of_mem_properties hw
    have hnot : o ∉ objects := fun hmem => hcut ⟨(h.object_mem_inside o).mpr hmem, herror⟩
    have hnodup : (o :: objects).Nodup := List.nodup_cons.mpr ⟨hnot, h.nodup_objects⟩
    have hlt : ∀ p ∈ o :: objects, p < m.objects.size := by simpa [ho] using h.lt_of_mem_objects
    refine ⟨⟨fun b => ?_, fun p => ?_, h.nodup_arrays, h.lt_of_mem_arrays, hnodup, hlt⟩, ?_⟩
    · simp [opened, h.array_mem_inside]
    · simp [openedObjects, h.object_mem_inside]
    · have hlength := length_le_of_lt hnodup hlt
      simp only [inspectNeed, opened, openedObjects, List.length_cons] at hlength ⊢
      omega

theorem display_leaf (h : m.parts .display v = []) (harray : ∀ a, v ≠ .array a) :
    m.display v = m.fullText (fun _ => "") .display v := by
  obtain ⟨k, hk⟩ := m.exists_displayFuel
  rw [display, hk, displayFrom_succ fun a ha => (harray a ha).elim]
  exact fullText_congr (by simp [h])

theorem inspectFrom_succ (herror : m.isError v = false)
    (h : ¬m.CutsInside .inspection inside v) (hnest : m.Nest inside arrays objects) :
    m.inspectFrom (n + 1) arrays objects v =
      m.fullText (m.inspectFrom n (opened v arrays) (openedObjects v objects)) .inspection v := by
  cases v with
  | array a =>
      have hnot : a ∉ arrays := fun hmem => h ⟨(hnest.array_mem_inside a).mpr hmem, trivial⟩
      simp only [inspectFrom, if_neg hnot, fullText, opened, openedObjects]
  | object o =>
      have hnot : o ∉ objects := fun hmem => h ⟨(hnest.object_mem_inside o).mpr hmem, herror⟩
      simp only [inspectFrom, herror, Bool.false_eq_true, if_false, if_neg hnot]
      rfl
  | string s => rfl
  | _ => exact display_leaf rfl nofun

theorem inspectFrom_error (herror : m.isError v = true) :
    m.inspectFrom (n + 1) arrays objects v = m.display v := by
  cases v with
  | object o => simp only [inspectFrom, herror, if_true]
  | _ => cases herror

theorem inspectFrom_cut (herror : m.isError v = false) (h : m.CutsInside .inspection inside v)
    (hnest : m.Nest inside arrays objects) :
    m.inspectFrom (n + 1) arrays objects v = "[Circular]" := by
  cases v with
  | array a => simp only [inspectFrom, if_pos ((hnest.array_mem_inside a).mp h.1)]
  | object o =>
      simp only [inspectFrom, herror, Bool.false_eq_true, if_false,
        if_pos ((hnest.object_mem_inside o).mp h.1)]
  | _ => exact h.2.elim

theorem renders_inspectFrom (hm : m.NamesEnd) (h : m.Nest inside arrays objects)
    (hn : m.inspectNeed arrays objects ≤ n) :
    m.Renders m.CutsInside .inspection inside v (m.inspectFrom n arrays objects v) := by
  induction n generalizing inside arrays objects v with
  | zero => exact (Nat.not_succ_le_zero _ hn).elim
  | succ n ih =>
      cases herror : m.isError v with
      | true =>
          rw [inspectFrom_error herror]
          exact .afresh herror (renders_display hm le_rfl v)
      | false =>
          by_cases hcut : m.CutsInside .inspection inside v
          · rw [inspectFrom_cut herror hcut h]
            exact .cut hcut fun _ => herror
          · rw [inspectFrom_succ herror hcut h]
            refine .full _ hcut (fun _ => herror) fun w hw => ?_
            obtain ⟨hnest, hneed⟩ := h.part herror hcut hw
            exact ih hnest (Nat.le_of_succ_le_succ (hneed.trans hn))

theorem renders_inspect (hm : m.NamesEnd) (hn : m.inspectFuel ≤ n) (v : Value) :
    m.Renders m.CutsInside .inspection [] v (m.inspectFrom n [] [] v) := by
  have hstart : m.Nest [] [] [] :=
    ⟨by simp, by simp, .nil, by simp, .nil, by simp⟩
  refine renders_inspectFrom hm hstart (Nat.le_trans ?_ hn)
  simp [inspectNeed, inspectFuel]

end Inspection

theorem renders_textWith (hm : m.NamesEnd) (hn : m.fuelFor form ≤ n) (v : Value) :
    m.Renders m.CutsInside form [] v (m.textWith n form v) :=
  match form with
  | .display => renders_display hm hn v
  | .inspection => renders_inspect hm hn v

theorem textWith_fuelFor (m : Memory) (form : Form) (v : Value) :
    m.textWith (m.fuelFor form) form v = m.text form v := by
  cases form <;> rfl

/-- The text of a value cuts off what stands inside itself and nothing else, it needs no more fuel
than it is given, and if nothing holds itself it is that in which nothing is cut off. -/
theorem text_cuts_only_inside (hm : m.NamesEnd) (form : Form) (v : Value) :
    (∀ t, m.Renders m.CutsInside form [] v t ↔ t = m.text form v) ∧
      (∀ n, m.fuelFor form ≤ n → m.textWith n form v = m.text form v) ∧
      (m.Acyclic v → ∀ t, m.Renders CutsNothing form [] v t ↔ t = m.text form v) := by
  have htext : m.Renders m.CutsInside form [] v (m.text form v) :=
    textWith_fuelFor m form v ▸ renders_textWith hm le_rfl v
  refine ⟨fun t => ⟨fun h => h.unique htext, fun h => h ▸ htext⟩, ?_, ?_⟩
  · exact fun n hn => (renders_textWith hm hn v).unique htext
  · intro hv t
    have hplain := htext.cutsNothing hv (by simp)
    exact ⟨fun h => h.unique hplain, fun h => h ▸ hplain⟩

section Shared

def sharedMemory : Memory where
  arrays := #[#[.array 0, .array 1, .array 1, .object 0], #[.string "x", .null]]
  objects := #[⟨.error, [("name", .string "E"), ("message", .object 1)]⟩,
    ⟨.error, [("message", .array 0)]⟩,
    ⟨.plain, [("self", .object 2), ("list", .array 1), ("again", .array 1), ("error", .object 0)]⟩]
  closures := #[]
  frames := #[]

theorem sharedMemory_namesEnd : sharedMemory.NamesEnd := by
  have hlt {o p : ObjectRef} (h : sharedMemory.NamedBy o p) : o < p := by
    have ho : o < 3 := lt_of_error (by simpa [isError] using h.isError)
    obtain ⟨herror, -, key, hkey, hget⟩ := h
    simp only [List.mem_cons, List.not_mem_nil, or_false] at hkey
    interval_cases o
    · rcases hkey with rfl | rfl <;> cases hget
      exact Nat.one_pos
    · rcases hkey with rfl | rfl <;> cases hget
    · cases herror
  intro o h
  have hless : TransGen (· < ·) o o := h.lift id fun _ _ => hlt
  exact Nat.lt_irrefl o (by rwa [transGen_eq_self] at hless)

theorem sharedMemory_acyclic : sharedMemory.Acyclic (.array 1) := by
  have hitem {w u : Value} (h : sharedMemory.Holds (.array 1) w) : ¬sharedMemory.Holds w u := by
    have hw : w = .string "x" ∨ w = .null := by simpa [Holds, arrayAt, sharedMemory] using h
    rcases hw with rfl | rfl <;> exact id
  intro w hw hcycle
  obtain ⟨u, hwu, hback⟩ := TransGen.head'_iff.mp hcycle
  obtain rfl | ⟨z, hz, hzw⟩ := ReflTransGen.cases_head hw
  · obtain rfl | ⟨z, hz, -⟩ := ReflTransGen.cases_head hback
    · exact hitem hwu hwu
    · exact hitem hwu hz
  · obtain rfl | ⟨y, hy, -⟩ := ReflTransGen.cases_head hzw
    · exact hitem hz hwu
    · exact hitem hz hy

theorem text_cuts_only_inside_shared :
    sharedMemory.NamesEnd ∧ sharedMemory.Acyclic (.array 1) ∧
      sharedMemory.Renders sharedMemory.CutsInside .display [] (.array 0) ",x,,x,,E: Error" ∧
      sharedMemory.Renders sharedMemory.CutsInside .inspection [] (.object 2)
        "\x7b self: [Circular], list: [\"x\", null], again: [\"x\", null], error: E: Error: ,x,,x,,E: Error \x7d" ∧
      sharedMemory.Renders CutsNothing .inspection [] (.array 1) "[\"x\", null]" :=
  ⟨sharedMemory_namesEnd, sharedMemory_acyclic,
    ((text_cuts_only_inside sharedMemory_namesEnd .display (.array 0)).1 _).mpr (by cbv),
    ((text_cuts_only_inside sharedMemory_namesEnd .inspection (.object 2)).1 _).mpr (by cbv),
    ((text_cuts_only_inside sharedMemory_namesEnd .inspection (.array 1)).2.2
      sharedMemory_acyclic _).mpr (by cbv)⟩

end Shared

end Memory

end SmallScript
