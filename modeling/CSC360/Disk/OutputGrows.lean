import CSC360.Base.Fuel
import CSC360.Disk.DiskList

/-!
# Printed output stays

Whether a part of `disklist.c` returns or stops, its output continues what had been
printed before it (`Grows`), and the second loop of `print_entire_image` continues
it with a header if with anything (`written_rootLoop`).
-/

namespace CSC360.Disk.DiskList
open CSC360.Base

/-- What a run has printed when it returns or stops. -/
def written : Except Stop Printer → List Item
  | .ok st => st.out
  | .error stop => stop.out

/-- A part of the program only adds to the output. -/
def Grows (f : Printer → Except Stop Printer) : Prop := ∀ st, st.out <+: written (f st)

variable {p : Image}

theorem written_bind {x : Except Stop Printer} {f : Printer → Except Stop Printer} (grows : Grows f) :
    written x <+: written (x >>= f) := by
  cases x with
  | error stop => exact List.prefix_rfl
  | ok st => exact grows st

theorem Grows.bind {f g : Printer → Except Stop Printer} (hf : Grows f) (hg : Grows g) :
    Grows fun st => f st >>= g :=
  fun st => (hf st).trans (written_bind hg)

theorem Grows.checked {α : Type} {x : Except Fault α} {f : α → Printer → Except Stop Printer}
    (hf : ∀ a, Grows (f a)) : Grows fun st => st.checked x >>= fun a => f a st := by
  intro st
  cases x with
  | error fault => exact List.prefix_rfl
  | ok a => exact hf a st

theorem Grows.ok : Grows fun st => .ok st := fun _ => List.prefix_rfl

theorem Grows.print (items : List Item) : Grows fun st => .ok (st.print items) :=
  fun st => List.prefix_append st.out items

theorem Grows.foldlM {α : Type} {f : Printer → α → Except Stop Printer} (hf : ∀ a, Grows (f · a)) (l : List α) :
    Grows fun st => l.foldlM f st := by
  induction l with
  | nil => exact Grows.ok
  | cons a l ih => exact (hf a).bind ih

theorem grows_printEntry (s : Slot) : Grows (printEntry p s) := by
  apply Grows.checked
  intro kind
  cases kind with
  | skip => exact Grows.ok
  | file => exact Grows.checked fun _ => Grows.print _
  | dir => exact Grows.print _

theorem grows_printSlots : ∀ left temp, Grows (printSlots p left temp) := by
  intro left
  induction left with
  | zero => exact fun temp => Grows.checked fun _ => Grows.ok
  | succ left ih =>
    intro temp
    apply Grows.checked
    intro b
    by_cases free : b = 0x00
    · simp only [free, if_true]
      exact Grows.ok
    · simp only [free, if_false]
      exact (grows_printEntry _).bind (ih (temp + 32))

theorem grows_listSector (a : Nat) : Grows (listSector p a) := (grows_printSlots 16 a).bind (Grows.print _)

theorem grows_clusterLoop {body : Nat → Printer → Except Stop Printer} (hbody : ∀ c, Grows (body c)) :
    ∀ fuel c, Grows (clusterLoop p Printer.stop body fuel c) := by
  intro fuel
  induction fuel with
  | zero => exact fun _ _ => List.prefix_rfl
  | succ fuel ih =>
    intro c st
    rw [clusterLoop]
    by_cases le : c ≤ 0xff0
    · rw [if_pos le]
      exact (hbody c).bind (Grows.checked fun next => ih next) st
    · rw [if_neg le]
      exact List.prefix_rfl

theorem grows_header (path : Printer → Slot → List UInt8) (s : Slot) {f : Printer → Except Stop Printer}
    (hf : Grows f) (st : Printer) :
    st.out ++ [.header (path st s)] <+: written (f ({ st with dirPath := path st s } : Printer).header) :=
  hf ({ st with dirPath := path st s } : Printer).header

theorem grows_descend {path : Printer → Slot → List UInt8} {sub : Nat → Printer → Except Stop Printer}
    (hsub : ∀ c, Grows (sub c)) (s : Slot) : Grows (descend p path sub · s) := by
  apply Grows.checked
  intro kind
  cases kind with
  | skip => exact Grows.ok
  | file => exact Grows.ok
  | dir => exact fun st => (List.prefix_append _ _).trans (grows_header path s (hsub _) st)

theorem grows_parseSub : ∀ fuel c, Grows (parseSub p fuel c) := by
  intro fuel
  induction fuel with
  | zero => exact fun _ _ => List.prefix_rfl
  | succ fuel ih =>
    intro c
    refine (grows_clusterLoop (fun c => grows_listSector (clusterAddr c)) (fuel + 1) c).bind ?_
    exact grows_clusterLoop (fun c => Grows.foldlM (grows_descend ih) (clusterSlots c)) (fuel + 1) c

theorem grows_printRoot : ∀ left a, Grows (printRoot p left a) := by
  intro left
  induction left with
  | zero => exact fun _ => Grows.ok
  | succ left ih =>
    intro a
    apply Grows.checked
    intro b
    by_cases free : b = 0x00
    · simp only [free, if_true]
      exact Grows.ok
    · simp only [free, if_false]
      exact (grows_listSector a).bind (ih _)

theorem grows_rootLoop {sub : Nat → Printer → Except Stop Printer} (hsub : ∀ c, Grows (sub c)) :
    ∀ left i, Grows (rootLoop p sub left i) := by
  intro left
  induction left with
  | zero => exact fun i => Grows.checked fun _ => Grows.ok
  | succ left ih =>
    intro i
    apply Grows.checked
    intro b
    by_cases free : b = 0x00
    · simp only [free, if_true]
      exact Grows.ok
    · simp only [free, if_false]
      exact (grows_descend hsub _).bind (ih (i + 1))

/-- The second root loop prints a header before anything else. -/
theorem written_rootLoop {sub : Nat → Printer → Except Stop Printer} (hsub : ∀ c, Grows (sub c)) :
    ∀ (left i : Nat) (st : Printer), written (rootLoop p sub left i st) = st.out ∨
      ∃ path, st.out ++ [.header path] <+: written (rootLoop p sub left i st) := by
  intro left
  induction left with
  | zero =>
    intro i st
    left
    rw [rootLoop]
    cases p.read (rootSlot i).addr <;> rfl
  | succ left ih =>
    intro i st
    rw [rootLoop]
    cases p.read (rootSlot i).addr with
    | error fault => exact .inl rfl
    | ok b =>
      rw [Printer.checked, mapError_ok, ok_bind]
      by_cases free : b = 0x00
      · rw [if_pos free]
        exact .inl rfl
      · rw [if_neg free, enterRootSlot, descend]
        cases p.classify (rootSlot i) with
        | error fault => exact .inl rfl
        | ok kind =>
          rw [Printer.checked, mapError_ok, ok_bind]
          cases kind with
          | skip => exact ih (i + 1) st
          | file => exact ih (i + 1) st
          | dir =>
            have entered := grows_header (resetPath p) (rootSlot i) (hsub (p.flc (rootSlot i))) st
            exact .inr ⟨_, entered.trans (written_bind (grows_rootLoop hsub left (i + 1)))⟩

end CSC360.Disk.DiskList
