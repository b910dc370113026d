/-!
This module holds the Unicode class of blank characters and the operation that strips them from
both ends of a text. `trimList_eq_self_iff` says which texts are already stripped, and
`trimList_trimList` that stripping happens once.
-/

namespace RowTree
namespace Text

/--
The characters with the Unicode property `White_Space`.
-/
def isBlank (c : Char) : Bool :=
  let n := c.toNat
  (0x9 ≤ n && n ≤ 0xD) || n == 0x20 || n == 0x85 || n == 0xA0 || n == 0x1680
    || (0x2000 ≤ n && n ≤ 0x200A) || n == 0x2028 || n == 0x2029 || n == 0x202F || n == 0x205F
    || n == 0x3000

theorem isBlank_of_isDigit {c : Char} (h : c.isDigit = true) : isBlank c = false := by
  have hrange : 48 ≤ c.toNat ∧ c.toNat ≤ 57 := by
    simpa [Char.isDigit, UInt32.le_iff_toNat_le] using h
  simp only [isBlank, Bool.or_eq_false_iff, Bool.and_eq_false_iff, decide_eq_false_iff_not,
    beq_eq_false_iff_ne]
  omega

def trimFront (cs : List Char) : List Char :=
  cs.dropWhile isBlank

def trimBack (cs : List Char) : List Char :=
  (cs.reverse.dropWhile isBlank).reverse

def trimList (cs : List Char) : List Char :=
  trimBack (trimFront cs)

def trim (s : String) : String :=
  String.ofList (trimList s.toList)

def isBlankText (s : String) : Bool :=
  s.toList.all isBlank

@[simp]
theorem toList_trim (s : String) : (trim s).toList = trimList s.toList := by
  simp [trim]

theorem trimFront_eq_self {cs : List Char} (h : ∀ c ∈ cs.head?, isBlank c = false) :
    trimFront cs = cs := by
  cases cs with
  | nil => rfl
  | cons c cs =>
    have hc : isBlank c = false := h c rfl
    simp [trimFront, hc]

theorem trimBack_eq_self {cs : List Char} (h : ∀ c ∈ cs.getLast?, isBlank c = false) :
    trimBack cs = cs := by
  have hfront : trimFront cs.reverse = cs.reverse :=
    trimFront_eq_self fun c hc => h c (by simpa using hc)
  have : trimBack cs = (trimFront cs.reverse).reverse := rfl
  rw [this, hfront, List.reverse_reverse]

theorem head?_trimFront {cs : List Char} : ∀ c ∈ (trimFront cs).head?, isBlank c = false := by
  intro c hc
  have := List.head?_dropWhile_not isBlank cs
  rw [trimFront] at hc
  rw [hc] at this
  simpa using this

theorem getLast?_trimBack {cs : List Char} : ∀ c ∈ (trimBack cs).getLast?, isBlank c = false := by
  intro c hc
  have hback : trimBack cs = (trimFront cs.reverse).reverse := rfl
  rw [hback, List.getLast?_reverse] at hc
  exact head?_trimFront c hc

theorem exists_trimBack_append {cs : List Char} : ∃ tail, trimBack cs ++ tail = cs := by
  refine ⟨(cs.reverse.takeWhile isBlank).reverse, ?_⟩
  rw [trimBack, ← List.reverse_append, List.takeWhile_append_dropWhile, List.reverse_reverse]

theorem head?_trimList {cs : List Char} : ∀ c ∈ (trimList cs).head?, isBlank c = false := by
  intro c hc
  obtain ⟨tail, htail⟩ : ∃ tail, trimBack (trimFront cs) ++ tail = trimFront cs :=
    exists_trimBack_append
  refine @head?_trimFront cs c ?_
  rw [trimList] at hc
  rw [← htail, List.head?_append]
  simp [Option.mem_def.1 hc]

theorem trimList_eq_self_iff {cs : List Char} :
    trimList cs = cs ↔
      (∀ c ∈ cs.head?, isBlank c = false) ∧ (∀ c ∈ cs.getLast?, isBlank c = false) := by
  constructor
  · intro h
    exact ⟨h ▸ head?_trimList, h ▸ getLast?_trimBack⟩
  · rintro ⟨hhead, hlast⟩
    rw [trimList, trimFront_eq_self hhead, trimBack_eq_self hlast]

@[simp]
theorem trimList_trimList (cs : List Char) : trimList (trimList cs) = trimList cs :=
  trimList_eq_self_iff.2 ⟨head?_trimList, getLast?_trimBack⟩

@[simp]
theorem trim_trim (s : String) : trim (trim s) = trim s := by
  simp [trim]

end Text
end RowTree
