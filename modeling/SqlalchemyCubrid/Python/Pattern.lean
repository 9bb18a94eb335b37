import SqlalchemyCubrid.Lib.Regex
import SqlalchemyCubrid.Python.Str

/-!
# Python patterns

The pieces the patterns of the repository are built from, over `Lib.Re`:
characters, `.`, `$`, and letters under `re.IGNORECASE`, and `re.findall` of a
pattern with one group.
-/

namespace SqlalchemyCubrid.Python

open Lib

def chr (c : Char) : Re Char := .cls (· == c)

/-- `.`, without `re.DOTALL` -/
def notNewline (c : Char) : Bool := c != '\n'

/-- `$`, without `re.MULTILINE` -/
def dollar : Re Char := .atEnd (· == '\n')

/-- A letter under `re.IGNORECASE`: besides the other case, `i` reads the dotted
capital and the dotless small i, `s` the long s, and `k` the kelvin sign. -/
def noCase (l c : Char) : Bool :=
  c == l.toUpper || c == l.toLower
    || (l.toLower == 'i' && (c.toNat == 0x130 || c.toNat == 0x131))
    || (l.toLower == 's' && c.toNat == 0x17F) || (l.toLower == 'k' && c.toNat == 0x212A)

/-- A word under `re.IGNORECASE`. -/
def keyword (w : Str) : Re Char := .word (w.map noCase)

/-- `re.findall` of a pattern with the one group `1`. -/
def findAll (r : Re Char) (s : Str) : List Str :=
  (r.findIter 0 s).map fun m => (m.group 1).getD []

/-- What `[^d]` reads. -/
theorem forall_bne_iff {d : Char} {w : Str} : (∀ c ∈ w, (c != d) = true) ↔ d ∉ w := by
  refine ⟨fun h hd => ?_, fun h c hc => ?_⟩
  · exact absurd (h d hd) (by simp)
  · have hne : c ≠ d := fun e => h (e ▸ hc)
    simpa using hne

theorem first_chr (c : Char) (s : Str) : (chr c).first (c :: s) = some ⟨[c], [], s⟩ :=
  Re.first_cls (by simp) s

theorem run_chr_cons {c d : Char} (h : d ≠ c) (s : Str) : (chr c).run (d :: s) = [] :=
  Re.run_cls_of_neg (by simpa using h) s

/-- Where `$` matches. -/
theorem eq_of_mem_run_dollar {s : Str} {h : Hit Char} (hh : h ∈ dollar.run s) :
    s = [] ∨ s = ['\n'] := by
  match s with
  | [] => exact Or.inl rfl
  | [c] =>
    have hc : h ∈ (if c == '\n' then [⟨[], [], [c]⟩] else [] : List (Hit Char)) := hh
    split at hc
    · rename_i e
      exact Or.inr (by rw [beq_iff_eq.mp e])
    · exact absurd hc List.not_mem_nil
  | _ :: _ :: _ => exact absurd hh List.not_mem_nil

end SqlalchemyCubrid.Python
