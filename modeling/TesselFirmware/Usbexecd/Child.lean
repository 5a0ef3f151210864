import Mathlib.Data.List.TakeWhile
import TesselFirmware.Memory.Buffer
import TesselFirmware.Memory.Byte

/-!
# The command of a child process (`soc/usbexecd.c`)

A child reads its command from the control pipe into a buffer, ends it with a NUL, and makes the
arguments of `execvp` of it.  What is in the local arrays before they are written is arbitrary.

* `Child.readLoop_content` : the buffer gets the longest prefix of the stream that it has space for;
* `Child.argLoop_content` : the arguments point to the start of the command and behind each NUL;
* `Child.execArgs_run` : no array is accessed out of its bounds, and the arguments are the first 255
  pieces of this prefix.
-/

namespace TesselFirmware

/-- `MAX_COMMAND_LEN`. -/
def maxCommandLen : ℕ := 1024

/-- `MAX_CTRL_ARGS`. -/
def maxCtrlArgs : ℕ := 255

/-- What `read` with a count of `n` returns from the control pipe, and what is left of the chunks
that come through it; nothing is returned at the end of the stream. -/
def readControl (n : ℕ) : List (List Byte) → List Byte × List (List Byte)
  | [] => ([], [])
  | chunk :: chunks =>
    if chunk.length ≤ n then (chunk, chunks) else (chunk.take n, chunk.drop n :: chunks)

/-- The local arrays of `child`; an argument is a pointer into `command` or `NULL`. -/
structure Child where
  command : Cells Byte maxCommandLen
  argv : Cells (Option ℕ) (maxCtrlArgs + 1)
  /-- An array has been accessed out of its bounds. -/
  fault : Bool

namespace Child

/-- The arrays before anything has been written to them. -/
def start (command : Cells Byte maxCommandLen) (argv : Cells (Option ℕ) (maxCtrlArgs + 1)) : Child :=
  ⟨command, argv, false⟩

variable (s : Child)

/-- An access is within the bounds or it is a fault. -/
def check (inBounds : Bool) : Child := { s with fault := s.fault || !inBounds }

/-- `max_to_read`. -/
def maxToRead : ℕ := maxCommandLen - 1

/-- The loop that reads the command; the result has `total_read`. -/
def readLoop (s : Child) (totalRead : ℕ) (chunks : List (List Byte)) : Child × ℕ :=
  if totalRead ≤ maxToRead then
    let n := maxToRead - totalRead
    let s := s.check (totalRead + n ≤ maxCommandLen)
    match readControl n chunks with
    | ([], _) => (s, totalRead)
    | (b :: bs, chunks) =>
      readLoop { s with command := s.command.write totalRead (b :: bs) }
        (totalRead + (b :: bs).length) chunks
  else (s, totalRead)
termination_by maxToRead + 1 - totalRead
decreasing_by
  simp only [List.length_cons]
  omega

/-- `argv[argc] = p`. -/
def setArg (argc : ℕ) (p : Option ℕ) : Child :=
  { s.check (argc < maxCtrlArgs + 1) with argv := s.argv.write argc [p] }

/-- The loop that makes the arguments; the result has `argc`. -/
def argLoop (s : Child) (totalRead i argc : ℕ) : Child × ℕ :=
  if i < totalRead ∧ argc < maxCtrlArgs then
    let s := s.check (i < maxCommandLen)
    if s.command.get i = 0#8 then argLoop (s.setArg argc (some (i + 1))) totalRead (i + 1) (argc + 1)
    else argLoop s totalRead (i + 1) argc
  else (s, argc)
termination_by totalRead - i
decreasing_by
  · omega
  · omega

/-- `child` up to `execvp`. -/
def run (chunks : List (List Byte)) : Child :=
  let (s, totalRead) := s.readLoop 0 chunks
  let s := { s.check (totalRead < maxCommandLen) with command := s.command.write totalRead [0#8] }
  let s := s.setArg 0 (some 0)
  let (s, argc) := s.argLoop totalRead 0 1
  s.setArg argc none

/-- The string that a pointer into `command` points to, if it ends there. -/
def cString (p : ℕ) : Option (List Byte) :=
  let bytes := s.command.cells.drop p
  if 0#8 ∈ bytes then some (bytes.takeWhile (· != 0#8)) else none

/-- The arguments that `execvp` is called with, if there is a `NULL` behind them. -/
def execArgs : Option (List (List Byte)) :=
  if none ∈ s.argv.cells then
    (s.argv.cells.takeWhile Option.isSome).mapM fun p => p.bind s.cString
  else none

/-- An access within the bounds. -/
theorem check_of {b : Bool} (h : b) : s.check b = s := by
  obtain rfl : b = true := h
  rw [check, Bool.not_true, Bool.or_false]

variable {s}

/-! ### Reading the command -/

/-- `read` takes bytes from the front of the stream, as long as there are any and it may. -/
theorem readControl_eq {n : ℕ} {chunks rest : List (List Byte)} {bs : List Byte}
    (hne : ∀ chunk ∈ chunks, chunk ≠ []) (h : readControl n chunks = (bs, rest)) :
    bs ++ rest.flatten = chunks.flatten ∧ bs.length ≤ n ∧
      (bs = [] → n = 0 ∨ chunks.flatten = []) ∧ ∀ chunk ∈ rest, chunk ≠ [] := by
  cases chunks with
  | nil =>
    cases h
    exact ⟨rfl, Nat.zero_le n, fun _ => .inr rfl, hne⟩
  | cons chunk chunks =>
    rw [List.forall_mem_cons] at hne
    rw [readControl] at h
    split_ifs at h with hlen
    · cases h
      exact ⟨rfl, hlen, fun hnil => absurd hnil hne.1, hne.2⟩
    · cases h
      refine ⟨?_, List.length_take_le _ _, fun hnil => ?_, ?_⟩
      · rw [List.flatten_cons, List.flatten_cons, ← List.append_assoc, List.take_append_drop]
      · rcases List.take_eq_nil_iff.1 hnil with h0 | hnil
        · exact .inl h0
        · exact absurd hnil hne.1
      · rw [List.forall_mem_cons]
        refine ⟨?_, hne.2⟩
        rw [ne_eq, List.drop_eq_nil_iff]
        exact hlen

/-- The command buffer has the bytes that have been read. -/
structure Read (s : Child) (totalRead : ℕ) (bytes : List Byte) : Prop where
  fault : s.fault = false
  length : bytes.length = totalRead
  le : totalRead ≤ maxToRead
  content : s.command.content totalRead = bytes

theorem Read.write {totalRead : ℕ} {bytes : List Byte} (h : s.Read totalRead bytes)
    (bs : List Byte) (hle : totalRead + bs.length ≤ maxToRead) :
    Read { s with command := s.command.write totalRead bs } (totalRead + bs.length)
      (bytes ++ bs) := by
  have hmax : maxToRead < maxCommandLen := by decide
  refine ⟨h.fault, ?_, hle, ?_⟩
  · rw [List.length_append, h.length]
  · rw [← h.content]
    exact Cells.content_write (by omega)

/-- One pass of the loop, whose access is within the bounds. -/
theorem readLoop_eq {totalRead : ℕ} (hle : totalRead ≤ maxToRead) (chunks : List (List Byte)) :
    s.readLoop totalRead chunks =
      match readControl (maxToRead - totalRead) chunks with
      | ([], _) => (s, totalRead)
      | (b :: bs, chunks) =>
        readLoop { s with command := s.command.write totalRead (b :: bs) }
          (totalRead + (b :: bs).length) chunks := by
  have hmax : maxToRead < maxCommandLen := by decide
  rw [readLoop, if_pos hle]
  dsimp only
  rw [check_of]
  rw [decide_eq_true_eq]
  omega

/-- **Reading the command.** -/
theorem readLoop_content (s : Child) (totalRead : ℕ) (chunks : List (List Byte))
    {bytes : List Byte} (h : s.Read totalRead bytes) (hne : ∀ chunk ∈ chunks, chunk ≠ []) :
    (s.readLoop totalRead chunks).1.Read (s.readLoop totalRead chunks).2
      ((bytes ++ chunks.flatten).take maxToRead) := by
  -- every pass but the last one makes the free part of the buffer smaller
  induction hn : maxToRead - totalRead using Nat.strongRecOn generalizing s totalRead
    chunks bytes with
  | _ n ih =>
    rw [readLoop_eq h.le]
    rcases hread : readControl (maxToRead - totalRead) chunks with ⟨_ | ⟨b, bs⟩, rest⟩
    · obtain ⟨-, -, hend, -⟩ := readControl_eq hne hread
      have hlen := h.length
      have hle := h.le
      -- there is no space left, or the stream is over
      have htake : (bytes ++ chunks.flatten).take maxToRead = bytes := by
        rcases hend rfl with hfull | hnil
        · rw [List.take_append_of_le_length (by omega), List.take_of_length_le (by omega)]
        · rw [hnil, List.append_nil, List.take_of_length_le (by omega)]
      rw [htake]
      exact h
    · obtain ⟨hflat, hlen, -, hrest⟩ := readControl_eq hne hread
      have hle := h.le
      have hpos : 0 < (b :: bs).length := Nat.succ_pos _
      have hwrite := h.write (b :: bs) (by omega)
      have hih := ih _ (by omega) _ _ _ hwrite hrest rfl
      rw [List.append_assoc, hflat] at hih
      exact hih

/-! ### Making the arguments -/

/-- Where the pieces behind the NULs of a string start that is itself at `i`. -/
def starts (i : ℕ) : List Byte → List ℕ
  | [] => []
  | b :: bs => if b = 0#8 then (i + 1) :: starts (i + 1) bs else starts (i + 1) bs

theorem starts_cons (i : ℕ) (b : Byte) (bs : List Byte) :
    starts i (b :: bs) = if b = 0#8 then (i + 1) :: starts (i + 1) bs else starts (i + 1) bs := rfl

theorem starts_le {bs : List Byte} {i p : ℕ} (h : p ∈ starts i bs) : p ≤ i + bs.length := by
  induction bs generalizing i with
  | nil => cases h
  | cons b bs ih =>
    rw [List.length_cons]
    rw [starts_cons] at h
    split_ifs at h
    · rcases List.mem_cons.1 h with rfl | h
      · omega
      · have := ih h
        omega
    · have := ih h
      omega

/-- The pieces of a string are the strings at these places. -/
theorem splitOn_eq (pre bs : List Byte) :
    bs.splitOn 0#8 = (pre.length :: starts pre.length bs).map
      fun p => ((pre ++ bs).drop p).takeWhile (· != 0#8) := by
  induction bs generalizing pre with
  | nil => simp [starts]
  | cons b bs ih =>
    have hih := ih (pre ++ [b])
    rw [List.append_assoc, List.length_append, List.length_singleton, List.singleton_append] at hih
    rw [List.splitOn_cons_eq_if_modifyHead, hih, starts_cons]
    by_cases hb : b = 0#8
    · subst hb
      simp
    · simp [hb]

/-- The first arguments are the pointers `ps`. -/
structure Args (s : Child) (argc : ℕ) (ps : List ℕ) : Prop where
  fault : s.fault = false
  length : ps.length = argc
  le : argc ≤ maxCtrlArgs
  content : s.argv.content argc = ps.map some

theorem Args.setArg {argc : ℕ} {ps : List ℕ} (h : s.Args argc ps) (hlt : argc < maxCtrlArgs)
    (p : ℕ) : (s.setArg argc (some p)).Args (argc + 1) (ps ++ [p]) := by
  rw [Child.setArg, check_of _ (by simp only [decide_eq_true_eq]; omega)]
  refine ⟨h.fault, ?_, hlt, ?_⟩
  · rw [List.length_append, h.length, List.length_singleton]
  · rw [List.map_append, ← h.content]
    exact Cells.content_write (by rw [List.length_singleton]; omega)

theorem command_setArg (s : Child) (argc : ℕ) (p : Option ℕ) :
    (s.setArg argc p).command = s.command := rfl

/-- One pass of the loop, whose access is within the bounds. -/
theorem argLoop_eq {totalRead i argc : ℕ} (htotal : totalRead ≤ maxToRead) :
    s.argLoop totalRead i argc =
      if i < totalRead ∧ argc < maxCtrlArgs then
        if s.command.get i = 0#8 then
          argLoop (s.setArg argc (some (i + 1))) totalRead (i + 1) (argc + 1)
        else argLoop s totalRead (i + 1) argc
      else (s, argc) := by
  have hmax : maxToRead < maxCommandLen := by decide
  rw [argLoop]
  by_cases hlt : i < totalRead ∧ argc < maxCtrlArgs
  · rw [if_pos hlt, if_pos hlt]
    dsimp only
    rw [check_of]
    rw [decide_eq_true_eq]
    omega
  · rw [if_neg hlt, if_neg hlt]

/-- **Making the arguments.** -/
theorem argLoop_content {totalRead : ℕ} (htotal : totalRead ≤ maxToRead) (s : Child) (i argc : ℕ)
    {ps : List ℕ} (h : s.Args argc ps) :
    (s.argLoop totalRead i argc).1.command = s.command ∧
      (s.argLoop totalRead i argc).1.Args (s.argLoop totalRead i argc).2
        ((ps ++ starts i (s.command.slice i (totalRead - i))).take maxCtrlArgs) := by
  have hmax : maxToRead < maxCommandLen := by decide
  have hlen := h.length
  have hle := h.le
  -- the rest of the command gets shorter with every byte
  induction hn : totalRead - i generalizing s i argc ps with
  | zero =>
    rw [argLoop_eq htotal, if_neg (by omega), Cells.slice_zero, starts, List.append_nil,
      List.take_of_length_le (by omega)]
    exact ⟨rfl, h⟩
  | succ n ih =>
    rw [argLoop_eq htotal, Cells.slice_succ _ (by omega), starts_cons]
    by_cases hfull : argc < maxCtrlArgs
    · rw [if_pos ⟨by omega, hfull⟩]
      split_ifs with hb
      · have harg := h.setArg hfull (i + 1)
        have hih := ih _ (i + 1) (argc + 1) harg harg.length harg.le (by omega)
        rw [List.append_assoc, command_setArg] at hih
        exact hih
      · exact ih _ (i + 1) argc h hlen hle (by omega)
    · rw [if_neg (fun hlt => hfull hlt.2), List.take_append_of_le_length (by omega),
        List.take_of_length_le (by omega)]
      exact ⟨rfl, h⟩

/-! ### The arguments of `execvp` -/

theorem takeWhile_cons_of_stop {α : Type*} {f : α → Bool} {xs ys : List α} {y : α}
    (hy : f y = false) : (xs ++ y :: ys).takeWhile f = xs.takeWhile f := by
  induction xs with
  | nil => simp [hy]
  | cons x xs ih => simp [List.takeWhile_cons, ih]

/-- A pointer into a command that ends with a NUL. -/
theorem cString_eq {bytes rest : List Byte} (h : s.command.cells = bytes ++ 0#8 :: rest) {p : ℕ}
    (hp : p ≤ bytes.length) :
    s.cString p = some ((bytes.drop p).takeWhile (· != 0#8)) := by
  have hdrop : s.command.cells.drop p = bytes.drop p ++ 0#8 :: rest := by
    rw [h, List.drop_append_of_le_length hp]
  rw [cString, hdrop, if_pos (by simp), takeWhile_cons_of_stop (by decide)]

theorem mapM_eq_some {α β : Type} {f : α → Option β} {g : α → β} {l : List α}
    (h : ∀ a ∈ l, f a = some (g a)) : l.mapM f = some (l.map g) := by
  induction l with
  | nil => rfl
  | cons a l ih =>
    rw [List.forall_mem_cons] at h
    rw [List.mapM_cons, h.1, ih h.2]
    rfl

/-- A list of pointers with a `NULL` behind it. -/
theorem execArgs_eq {bytes rest : List Byte} (hcommand : s.command.cells = bytes ++ 0#8 :: rest)
    {ps : List ℕ} {rest' : List (Option ℕ)} (hargv : s.argv.cells = ps.map some ++ none :: rest')
    (hps : ∀ p ∈ ps, p ≤ bytes.length) :
    s.execArgs = some (ps.map fun p => (bytes.drop p).takeWhile (· != 0#8)) := by
  have hsome : (ps.map some).takeWhile Option.isSome = ps.map some := by
    rw [List.takeWhile_eq_self_iff]
    simp
  rw [execArgs, hargv, if_pos (by simp), takeWhile_cons_of_stop rfl, hsome]
  have hmap : ∀ q ∈ ps.map some, q.bind s.cString =
      some ((bytes.drop (q.getD 0)).takeWhile (· != 0#8)) := by
    intro q hq
    obtain ⟨p, hp, rfl⟩ := List.mem_map.1 hq
    exact cString_eq hcommand (hps p hp)
  rw [mapM_eq_some hmap, List.map_map]
  rfl

theorem length_starts (i : ℕ) (bs : List Byte) : (starts i bs).length = bs.count 0#8 := by
  induction bs generalizing i with
  | nil => rfl
  | cons b bs ih =>
    rw [starts_cons, List.count_cons]
    by_cases hb : b = 0#8
    · subst hb
      simp [ih]
    · simp [hb, ih]

theorem length_splitOn (bs : List Byte) : (bs.splitOn 0#8).length = bs.count 0#8 + 1 := by
  rw [splitOn_eq [] bs, List.length_map, List.length_cons, length_starts]

/-- The buffers when `execvp` is called. -/
theorem run_spec (command : Cells Byte maxCommandLen)
    (argv : Cells (Option ℕ) (maxCtrlArgs + 1)) {chunks : List (List Byte)}
    (hne : ∀ chunk ∈ chunks, chunk ≠ []) :
    ((start command argv).run chunks).fault = false ∧
      ((start command argv).run chunks).execArgs =
        some (((chunks.flatten.take maxToRead).splitOn 0#8).take maxCtrlArgs) := by
  have hmax : maxToRead < maxCommandLen := by decide
  have hstart : (start command argv).Read 0 [] := ⟨rfl, rfl, Nat.zero_le _, rfl⟩
  have hread := readLoop_content _ 0 chunks hstart hne
  rw [List.nil_append] at hread
  unfold run
  generalize (start command argv).readLoop 0 chunks = x at hread
  obtain ⟨s, totalRead⟩ := x
  generalize chunks.flatten.take maxToRead = bytes at hread
  replace hread : s.Read totalRead bytes := hread
  have hle := hread.le
  obtain ⟨rest, hcells⟩ := Cells.cells_write hread.content (x := 0#8) (by omega)
  have hcheck : s.check (totalRead < maxCommandLen) = s := by
    refine check_of _ ?_
    rw [decide_eq_true_eq]
    omega
  dsimp only
  rw [hcheck]
  -- the first argument is the start of the command
  have hfirst : Args { s with command := s.command.write totalRead [0#8] } 0 [] :=
    ⟨hread.fault, rfl, Nat.zero_le _, rfl⟩
  have harg := hfirst.setArg (by decide) 0
  have hslice : (s.command.write totalRead [0#8]).slice 0 (totalRead - 0) = bytes := by
    rw [Cells.slice, hcells, List.drop_zero, Nat.sub_zero, ← hread.length, List.take_left]
  obtain ⟨hcommand, hloop⟩ := argLoop_content hle _ 0 1 harg
  rw [command_setArg] at hcommand hloop
  dsimp only at hloop
  rw [hslice] at hloop
  generalize argLoop _ totalRead 0 1 = x at hcommand hloop
  obtain ⟨s', argc⟩ := x
  dsimp only at hcommand hloop ⊢
  have hargc := hloop.le
  obtain ⟨rest', hargv⟩ := Cells.cells_write hloop.content (x := none) (by omega)
  rw [setArg, check_of _ (by rw [decide_eq_true_eq]; omega)]
  refine ⟨hloop.fault, ?_⟩
  have hstarts : ∀ p ∈ ([0] ++ starts 0 bytes).take maxCtrlArgs, p ≤ bytes.length := by
    intro p hp
    rcases List.mem_append.1 (List.mem_of_mem_take hp) with hp | hp
    · rw [List.mem_singleton.1 hp]
      exact Nat.zero_le _
    · have := starts_le hp
      omega
  rw [execArgs_eq (s := { s' with argv := s'.argv.write argc [none] })
    ((congrArg Cells.cells hcommand).trans hcells) hargv hstarts, splitOn_eq [] bytes]
  rw [List.map_take]
  rfl

/-- **The command of a child.**  Whatever the arrays contain at first, and however the stream comes
through the control pipe: no array is accessed out of its bounds, and `execvp` is called with the
first 255 pieces of the first 1023 bytes, which are all pieces of the stream if there are no more
than 1023 bytes with 254 NULs. -/
theorem execArgs_run (command : Cells Byte maxCommandLen)
    (argv : Cells (Option ℕ) (maxCtrlArgs + 1)) {chunks : List (List Byte)}
    (hne : ∀ chunk ∈ chunks, chunk ≠ []) :
    ((start command argv).run chunks).fault = false ∧
      ((start command argv).run chunks).execArgs =
        some (((chunks.flatten.take 1023).splitOn 0#8).take 255) ∧
      (chunks.flatten.length ≤ 1023 → chunks.flatten.count 0#8 ≤ 254 →
        ((start command argv).run chunks).execArgs = some (chunks.flatten.splitOn 0#8)) := by
  obtain ⟨hfault, hargs⟩ := run_spec command argv hne
  refine ⟨hfault, hargs, fun hlen hcount => ?_⟩
  have hle : chunks.flatten.length ≤ maxToRead := hlen
  rw [hargs, List.take_of_length_le hle, List.take_of_length_le]
  rw [length_splitOn]
  exact Nat.succ_le_succ hcount

/-- A command with two arguments, in three chunks. -/
theorem execArgs_twoArgs :
    ((start (.fill 0xFF#8) (.fill (some 9))).run
        [[0x6C#8], [0x73#8, 0#8, 0x2D#8], [0x6C#8]]).execArgs =
      some [[0x6C#8, 0x73#8], [0x2D#8, 0x6C#8]] :=
  (execArgs_run (.fill 0xFF#8) (.fill (some 9)) (by decide)).2.2 (by decide) (by decide)

end Child

end TesselFirmware
