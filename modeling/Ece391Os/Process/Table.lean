import Ece391Os.Data.Forest
import Ece391Os.Process.Calls

namespace Ece391Os

open Data

/-! The process table: which slots are in use, and the three chains of
processes hanging from the base shells. -/

def usedSlots (processArray : Int → Int) : Nat :=
  (List.range maxProgs).countP fun (i : Nat) => processArray i ≠ -1

theorem usedSlots_le (processArray : Int → Int) : usedSlots processArray ≤ maxProgs := by
  calc
    usedSlots processArray ≤ (List.range maxProgs).length := List.countP_le_length
    _ = maxProgs := List.length_range

theorem usedSlots_take {processArray : Int → Int} {i : Nat} (inside : i < maxProgs)
    (free : processArray i = -1) :
    usedSlots (Function.update processArray i 1) = usedSlots processArray + 1 := by
  apply countP_switch List.nodup_range (List.mem_range.mpr inside)
  · simp [free]
  · simp
  · intro other _ different
    have apart : (other : Int) ≠ i := by omega
    simp [apart]

theorem usedSlots_free {processArray : Int → Int} {i : Nat} (inside : i < maxProgs)
    (used : processArray i ≠ -1) :
    usedSlots (Function.update processArray i (-1)) + 1 = usedSlots processArray := by
  symm
  apply countP_switch List.nodup_range (List.mem_range.mpr inside)
  · simp
  · simpa using used
  · intro other _ different
    have apart : (other : Int) ≠ i := by omega
    simp [apart]

theorem findSlot_some {processArray : Int → Int} {i : Nat}
    (found : findSlot processArray = some i) : i < maxProgs ∧ processArray i = -1 := by
  refine ⟨List.mem_range.mp (List.mem_of_find?_eq_some found), ?_⟩
  simpa using List.find?_some found

theorem findSlot_isSome {processArray : Int → Int}
    (room : usedSlots processArray < maxProgs) : (findSlot processArray).isSome := by
  by_contra full
  have none : findSlot processArray = none := by simpa using full
  have all : ∀ i ∈ List.range maxProgs, processArray (i : Nat) ≠ -1 := by
    simpa [findSlot] using none
  have counted : usedSlots processArray = (List.range maxProgs).length :=
    List.countP_eq_length.mpr fun i inside => by simpa using all i inside
  rw [counted, List.length_range] at room
  exact Nat.lt_irrefl _ room

structure ProcessView where
  processNum : Int
  processArray : Int → Int
  pid : Nat → Int
  parentPid : Nat → Int
  parentEsp : Nat → Int
  parentEbp : Nat → Int
  current : Fin 3 → Int
  curSchedTerm : Fin 3
  prevSchedTerm : Option (Fin 3)
  tssEsp0 : Nat
  progEntry : X86.Word

def Kernel.processView (kernel : Kernel) : ProcessView where
  processNum := kernel.processNum
  processArray := kernel.processArray
  pid := fun address => (kernel.pcbAt address).pid
  parentPid := fun address => (kernel.pcbAt address).parentPid
  parentEsp := fun address => (kernel.pcbAt address).parentEsp
  parentEbp := fun address => (kernel.pcbAt address).parentEbp
  current := fun terminal => (kernel.schedArr terminal).processNum
  curSchedTerm := kernel.curSchedTerm
  prevSchedTerm := kernel.prevSchedTerm
  tssEsp0 := kernel.tssEsp0
  progEntry := kernel.pages.pageDirectory (directorySlot userProg)

def baseShell (terminal : Fin 3) : Int := terminal.val + 1

def userEntry (pid : Int) : X86.Word := BitVec.ofInt 32 (userFrame pid) ||| 0x087#32

namespace ProcessView

def parentOf (view : ProcessView) (pid : Int) : Int := view.parentPid (pcbAddr pid)

theorem pid_eq (kernel : Kernel) (address : Nat) :
    kernel.processView.pid address = (kernel.pcbAt address).pid := rfl

theorem parentOf_eq (kernel : Kernel) (pid : Int) :
    kernel.processView.parentOf pid = (kernel.pcbAt (pcbAddr pid)).parentPid := rfl

/-- The processes of each terminal, youngest first, as slots and control blocks
record them. -/
structure Holds (view : ProcessView) (chains : Fin 3 → List Int) : Prop where
  forest : Forest view.parentOf baseShell chains
  used : ∀ pid, (∃ terminal, pid ∈ chains terminal) ↔
    (1 ≤ pid ∧ pid ≤ 6) ∧ view.processArray (pid - 1) ≠ -1
  pid : ∀ terminal, ∀ member ∈ chains terminal, view.pid (pcbAddr member) = member
  parentEsp : ∀ terminal, ∀ member ∈ chains terminal, member ≠ baseShell terminal →
    view.parentEsp (pcbAddr member) = stackTop (view.parentOf member)
  orphan : ∀ terminal, view.parentOf (baseShell terminal) = 0

/-- The running process is the youngest of its terminal, and the processor is
set up for it. -/
structure Runs (view : ProcessView) (chains : Fin 3 → List Int) : Prop where
  current : ∀ terminal, (chains terminal).head? = some (view.current terminal)
  tssEsp0 : view.tssEsp0 = u32 (stackTop (view.current view.curSchedTerm))
  progEntry : view.progEntry = userEntry (view.current view.curSchedTerm)
  processNum : view.processNum = usedSlots view.processArray
  active : view.prevSchedTerm ≠ none

namespace Holds

variable {view : ProcessView} {chains : Fin 3 → List Int}

theorem range (holds : view.Holds chains) {terminal : Fin 3} {member : Int}
    (inside : member ∈ chains terminal) : 1 ≤ member ∧ member ≤ 6 :=
  ((holds.used member).mp ⟨terminal, inside⟩).1

theorem slot (holds : view.Holds chains) {terminal : Fin 3} {member : Int}
    (inside : member ∈ chains terminal) : view.processArray (member - 1) ≠ -1 :=
  ((holds.used member).mp ⟨terminal, inside⟩).2

theorem isBaseShell_iff (holds : view.Holds chains) {terminal : Fin 3} {member : Int}
    (inside : member ∈ chains terminal) :
    Kernel.isBaseShell member ↔ member = baseShell terminal := by
  constructor
  · intro base
    have rooted : ∃ other : Fin 3, member = baseShell other := by
      rcases base with rfl | rfl | rfl
      · exact ⟨0, rfl⟩
      · exact ⟨1, rfl⟩
      · exact ⟨2, rfl⟩
    obtain ⟨other, rfl⟩ := rooted
    rw [holds.forest.eq_of_mem inside (holds.forest.root_mem other)]
  · rintro rfl
    simp only [Kernel.isBaseShell, baseShell]
    omega

theorem parentOf_eq_zero_iff (holds : view.Holds chains) {terminal : Fin 3}
    {member : Int} (inside : member ∈ chains terminal) :
    view.parentOf member = 0 ↔ member = baseShell terminal := by
  constructor
  · intro orphaned
    by_contra young
    have parent := holds.range (holds.forest.parent_mem inside young)
    omega
  · rintro rfl
    exact holds.orphan terminal

end Holds

theorem Holds.start {view view' : ProcessView} {chains : Fin 3 → List Int}
    (holds : view.Holds chains) {terminal : Fin 3} {child parent : Int}
    (top : (chains terminal).head? = some parent)
    (range : 1 ≤ child ∧ child ≤ 6)
    (free : view.processArray (child - 1) = -1)
    (slots : view'.processArray = Function.update view.processArray (child - 1) 1)
    (pid : view'.pid = Function.update view.pid (pcbAddr child) child)
    (parentPid : view'.parentPid = Function.update view.parentPid (pcbAddr child) parent)
    (parentEsp : view'.parentEsp =
      Function.update view.parentEsp (pcbAddr child) (stackTop parent)) :
    view'.Holds (Function.update chains terminal (child :: chains terminal)) := by
  have fresh : ∀ other, child ∉ chains other := fun other inside =>
    holds.slot inside free
  have apart : ∀ {other : Fin 3} {member : Int}, member ∈ chains other →
      pcbAddr member ≠ pcbAddr child := by
    intro other member inside same
    obtain ⟨lower, upper⟩ := holds.range inside
    obtain rfl := pcbAddr_injective lower upper range.1 range.2 same
    exact fresh other inside
  have memberOf : ∀ {other : Fin 3} {member : Int},
      member ∈ Function.update chains terminal (child :: chains terminal) other →
      (member = child ∧ other = terminal) ∨ member ∈ chains other := by
    intro other member inside
    by_cases here : other = terminal
    · subst here
      rw [Function.update_self] at inside
      rcases List.mem_cons.mp inside with young | older
      · exact .inl ⟨young, rfl⟩
      · exact .inr older
    · exact .inr (by rwa [Function.update_of_ne here] at inside)
  have kept : ∀ {other : Fin 3} {member : Int}, member ∈ chains other →
      view'.parentOf member = view.parentOf member := by
    intro other member inside
    simp only [parentOf, parentPid]
    rw [Function.update_of_ne (apart inside)]
  have linked : view'.parentOf child = parent := by
    simp [parentOf, parentPid]
  refine ⟨?_, ?_, ?_, ?_, ?_⟩
  · exact holds.forest.push top linked fresh fun _ _ inside => kept inside
  · intro member
    rw [slots]
    constructor
    · rintro ⟨other, inside⟩
      rcases memberOf inside with ⟨rfl, -⟩ | older
      · exact ⟨range, by simp⟩
      · have different : member - 1 ≠ child - 1 := by
          intro same
          exact fresh other (by rwa [show child = member by omega])
        rw [Function.update_of_ne different]
        exact (holds.used member).mp ⟨other, older⟩
    · rintro ⟨memberRange, slot⟩
      by_cases same : member = child
      · subst same
        exact ⟨terminal, by simp⟩
      · rw [Function.update_of_ne (by omega)] at slot
        obtain ⟨other, inside⟩ := (holds.used member).mpr ⟨memberRange, slot⟩
        refine ⟨other, ?_⟩
        by_cases here : other = terminal
        · subst here
          simp [inside]
        · rwa [Function.update_of_ne here]
  · intro other member inside
    rw [pid]
    rcases memberOf inside with ⟨rfl, -⟩ | older
    · simp
    · rw [Function.update_of_ne (apart older)]
      exact holds.pid other member older
  · intro other member inside young
    rw [parentEsp]
    rcases memberOf inside with ⟨rfl, -⟩ | older
    · rw [linked, Function.update_self]
    · rw [Function.update_of_ne (apart older), kept older]
      exact holds.parentEsp other member older young
  · intro other
    rw [kept (holds.forest.root_mem other)]
    exact holds.orphan other

theorem Holds.finish {view view' : ProcessView} {chains : Fin 3 → List Int}
    (holds : view.Holds chains) {terminal : Fin 3} {child next : Int} {older : List Int}
    (top : chains terminal = child :: next :: older)
    (slots : view'.processArray = Function.update view.processArray (child - 1) (-1))
    (pid : view'.pid = view.pid) (parentPid : view'.parentPid = view.parentPid)
    (parentEsp : view'.parentEsp = view.parentEsp) :
    view'.Holds (Function.update chains terminal (next :: older)) := by
  have links : view'.parentOf = view.parentOf := by
    funext member
    simp only [parentOf, parentPid]
  have inside : child ∈ chains terminal := by simp [top]
  have fresh : child ∉ next :: older := by
    have nodup := holds.forest.nodup terminal
    rw [top] at nodup
    exact (List.nodup_cons.mp nodup).1
  have subset : ∀ {other : Fin 3} {member : Int},
      member ∈ Function.update chains terminal (next :: older) other →
      member ∈ chains other ∧ member ≠ child := by
    intro other member among
    by_cases here : other = terminal
    · subst here
      rw [Function.update_self] at among
      exact ⟨by rw [top]; exact List.mem_cons_of_mem _ among, by
        rintro rfl
        exact fresh among⟩
    · rw [Function.update_of_ne here] at among
      exact ⟨among, by
        rintro rfl
        exact here (holds.forest.eq_of_mem among inside)⟩
  refine ⟨?_, ?_, ?_, ?_, ?_⟩
  · rw [links]
    exact holds.forest.pop top
  · intro member
    rw [slots]
    constructor
    · rintro ⟨other, among⟩
      obtain ⟨was, different⟩ := subset among
      rw [Function.update_of_ne (by omega)]
      exact (holds.used member).mp ⟨other, was⟩
    · rintro ⟨range, slot⟩
      have different : member ≠ child := by
        rintro rfl
        simp at slot
      rw [Function.update_of_ne (by omega)] at slot
      obtain ⟨other, was⟩ := (holds.used member).mpr ⟨range, slot⟩
      refine ⟨other, ?_⟩
      by_cases here : other = terminal
      · subst here
        rw [top] at was
        rw [Function.update_self]
        exact (List.mem_cons.mp was).resolve_left different
      · rwa [Function.update_of_ne here]
  · intro other member among
    rw [pid]
    exact holds.pid other member (subset among).1
  · intro other member among young
    rw [parentEsp, links]
    exact holds.parentEsp other member (subset among).1 young
  · intro other
    rw [links]
    exact holds.orphan other

end ProcessView

end Ece391Os
