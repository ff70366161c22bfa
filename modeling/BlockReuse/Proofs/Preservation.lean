import BlockReuse.Proofs.LoadMerging
import BlockReuse.Proofs.Simulation

/-!
# Preservation — a function runs as before once its results are reused

The scan of a block and a run of the block go through the same members in the same order. Where both
stand behind the same members, an instruction that reads no memory still holds what it would compute
again, for its operands stand before it and are not set a second time. For a load this is an
invariant of the scan: as long as the load is in the table, every write since has left the bytes it
read, if the oracle is sound (`LoadsHold`). So whenever the scan moves the uses of an instruction to
an earlier one, that one holds the result, and the move is anticipated.

Every move changes the function, and the invariant with it. It carries over because an anticipated
move changes no run, and because a load whose pointer a move changes leaves the table.
-/

set_option autoImplicit false

namespace BlockReuse

/-! ## Keys that lose nothing -/

/-- Reusable instructions have no more operands than a key has slots. -/
def Func.Narrow (f : Func) : Prop :=
  ∀ index x, f.instruction? index = some x → x.isReusable = true → x.operands.length ≤ keyWidth

instance (f : Func) : Decidable f.Narrow :=
  decidable_of_iff
    (∀ x ∈ f.instructions, x.isReusable = true → x.operands.length ≤ keyWidth) <| by
      constructor
      · intro narrow index x found
        rw [Func.instruction?_eq_getElem?] at found
        exact narrow x (List.mem_of_getElem? found)
      · intro narrow x mem
        obtain ⟨index, found⟩ := List.mem_iff_getElem?.mp mem
        rw [← Func.instruction?_eq_getElem?] at found
        exact narrow index x found

theorem Func.Narrow.after {f : Func} (narrow : f.Narrow) (events : List Event) :
    (f.after events).Narrow := by
  obtain ⟨g, after⟩ := f.exists_after_eq_mapOperands events
  intro index x found reusable
  rw [after, Func.instruction?_mapOperands] at found
  obtain ⟨y, unmoved, rfl⟩ := Option.map_eq_some_iff.mp found
  rw [Instruction.isReusable_map] at reusable
  rw [Instruction.operands_map, List.length_map]
  exact narrow index y unmoved reusable

/-- Where keys lose nothing, instructions that have one key are the same. -/
theorem Func.Narrow.instruction?_eq {f : Func} (narrow : f.Narrow) {i j : Nat}
    {key : ExpressionKey} {x : Instruction Value} (iKeyed : f.key? i = some key)
    (jKeyed : f.key? j = some key) (found : f.instruction? i = some x) :
    f.instruction? j = some x := by
  obtain ⟨y, iFound, yKeyed⟩ := Func.key?_eq_some.mp iKeyed
  obtain ⟨z, jFound, zKeyed⟩ := Func.key?_eq_some.mp jKeyed
  obtain rfl := Option.some.inj (found.symm.trans iFound)
  have yWidth := narrow i x iFound (Instruction.isReusable_of_key? yKeyed)
  have zWidth := narrow j z jFound (Instruction.isReusable_of_key? zKeyed)
  rw [jFound, Instruction.eq_of_key?_eq zKeyed yKeyed zWidth yWidth]

/-! ## Results that still hold -/

variable {Val Mem World Byte : Type} {I : Interpretation Val Mem World Byte}

/-- Behind the members `done`, `index` holds what the instruction `x` would compute. -/
def Holds (I : Interpretation Val Mem World Byte) (f : Func) (c : Config Val Mem World)
    (done : List Nat) (index : Nat) (x : Instruction Value) : Prop :=
  (I.reach f c done).results index = I.value c (I.reach f c done) x

section Holds

variable {f : Func} {c : Config Val Mem World} {b : Block} {done : List Nat} {index next : Nat}
  {x y : Instruction Value}

/-- A member that was passed does not mention the next one, nor itself, unless it is a phi. -/
theorem next_not_mem_operands (ordered : f.Ordered) (mem : b ∈ f.blocks)
    (inBlock : done ++ [next] <+: b.members) (seen : index ∈ done ++ [next])
    (found : f.instruction? index = some x) (notPhi : x.isPhi = false) :
    .inst next ∉ x.operands := by
  intro uses
  have nextMem : next ∈ b.members := inBlock.subset (by simp)
  have earlier := ordered b mem index (inBlock.subset seen) x found notPhi next nextMem uses
  rcases List.mem_append.mp seen with seen | last
  · have := (Func.idxOf_lt_iff_mem mem inBlock).mpr seen
    omega
  · obtain rfl := List.mem_singleton.mp last
    omega

/-- A result still holds behind a member that leaves what it loads, if it loads. -/
theorem Holds.append (ordered : f.Ordered) (mem : b ∈ f.blocks)
    (inBlock : done ++ [next] <+: b.members) (seen : index ∈ done)
    (found : f.instruction? index = some x)
    (kept : ∀ type pointer isVolatile, x = .load type pointer isVolatile →
      I.fetch type (I.eval (I.reach f c done).results pointer)
          (I.perform f c (I.reach f c done) next).memory =
        I.fetch type (I.eval (I.reach f c done).results pointer) (I.reach f c done).memory)
    (holds : Holds I f c done index x) : Holds I f c (done ++ [next]) index x := by
  have distinct : index ≠ next := by
    rintro rfl
    exact Func.not_mem_of_prefix mem inBlock seen
  have apart := next_not_mem_operands ordered mem inBlock (List.mem_append_left _ seen) found
  rw [Holds, Interpretation.reach_append_singleton, Interpretation.results_perform_of_ne distinct,
    Interpretation.value_perform apart kept]
  exact holds

/-- A result holds when it was just computed. -/
theorem holds_self (ordered : f.Ordered) (mem : b ∈ f.blocks)
    (inBlock : done ++ [index] <+: b.members) (found : f.instruction? index = some x)
    (reusable : x.isReusable = true) : Holds I f c (done ++ [index]) index x := by
  have apart := next_not_mem_operands ordered mem inBlock (by simp) found
  have unchanged : I.value c (I.perform f c (I.reach f c done) index) x =
      I.value c (I.reach f c done) x := by
    refine Interpretation.value_perform apart fun type pointer isVolatile _ => ?_
    exact Interpretation.fetch_perform_of_not_mayWrite found
      (Instruction.mayWrite_of_isReusable reusable) type _
  rw [Holds, Interpretation.reach_append_singleton, unchanged,
    Interpretation.perform_of_isReusable found reusable]
  exact Function.update_self ..

/-- The result of an instruction that reads no memory holds to the end of its block. -/
theorem holds_of_pure (ordered : f.Ordered) (mem : b ∈ f.blocks) (inBlock : done <+: b.members)
    (seen : index ∈ done) (found : f.instruction? index = some x) (reusable : x.isReusable = true)
    (pure : x.isLoad = false) : Holds I f c done index x := by
  induction done using List.reverseRecOn with
  | nil => cases seen
  | append_singleton done next ih =>
    rcases List.mem_append.mp seen with seen | last
    · refine Holds.append ordered mem inBlock seen found ?_
        (ih ((List.prefix_append done [next]).trans inBlock) seen)
      rintro type pointer isVolatile rfl
      cases pure
    · obtain rfl := List.mem_singleton.mp last
      exact holds_self ordered mem inBlock found reusable

end Holds

/-! ## Loads in the table -/

/-- Behind the members `done` of a block, in every run, each load in the table holds what it would
load now. -/
def LoadsHold (I : Interpretation Val Mem World Byte) (f : Func) (block : Nat) (done : List Nat)
    (table : ExpressionTable) : Prop :=
  ∀ e ∈ table.entries, e.key.opcode.isLoad = true →
    ∀ x, f.instruction? e.representative = some x →
      ∀ memory world n, (I.run f memory world n).block = some block →
        Holds I f (I.run f memory world n) done e.representative x

section Loads

variable {f : Func} {oracle : Oracle} {block : Nat} {b : Block} {done : List Nat} {next : Nat}
  {x : Instruction Value} {table : ExpressionTable}

/-- What a load in the table would load stays the same behind an instruction that it outlives. -/
theorem fetch_perform_of_outlives (sound : oracle.Sound I f) {memory : Mem} {world : World}
    {n : Nat}
    (entered : (I.run f memory world n).block = some block) (found : f.blocks[block]? = some b)
    (inBlock : done ++ [next] <+: b.members) (nextFound : f.instruction? next = some x)
    {e : Entry} (seen : e.representative ∈ done) (keyed : f.key? e.representative = some e.key)
    (load : e.key.opcode.isLoad = true)
    (survives : x.mayWrite = true → outlives f oracle x e = true) {type : IrType} {pointer : Value}
    {isVolatile : Bool}
    (loads : f.instruction? e.representative = some (.load type pointer isVolatile)) :
    I.fetch type (I.eval (I.reach f (I.run f memory world n) done).results pointer)
        (I.perform f (I.run f memory world n) (I.reach f (I.run f memory world n) done)
          next).memory =
      I.fetch type (I.eval (I.reach f (I.run f memory world n) done).results pointer)
        (I.reach f (I.run f memory world n) done).memory := by
  cases writes : x.mayWrite with
  | false => exact Interpretation.fetch_perform_of_not_mayWrite nextFound writes _ _
  | true =>
    obtain ⟨stores, loaded, stored, loadedAt, storedAt, apart, -⟩ :=
      exists_locations_of_outlives keyed load (survives writes)
    rw [Func.location?, loads, Option.bind_some] at loadedAt
    obtain rfl := Option.some.inj loadedAt
    cases x with
    | store storeType value address storeVolatile =>
      obtain rfl := Option.some.inj storedAt
      have disjoint := sound memory world n block b done e.representative next _ _ entered found
        inBlock seen (by rw [loads]; rfl) (by rw [nextFound]; rfl) apart
      rw [Interpretation.perform_of_not_isReusable nextFound rfl]
      exact I.fetch_act_store _ _ _ _ _ _ _ _ disjoint
    | _ => cases stores

/-- One more member: the loads that outlive it still hold. -/
theorem LoadsHold.append (loadsHold : LoadsHold I f block done table)
    (current : table.Current f done) (ordered : f.Ordered) (sound : oracle.Sound I f)
    (found : f.blocks[block]? = some b) (inBlock : done ++ [next] <+: b.members)
    (nextFound : f.instruction? next = some x) {after : ExpressionTable}
    (kept : ∀ e ∈ after.entries, e ∈ table.entries ∧
      (x.mayWrite = true → outlives f oracle x e = true)) :
    LoadsHold I f block (done ++ [next]) after := by
  intro e mem load y yFound memory world n entered
  obtain ⟨old, survives⟩ := kept e mem
  obtain ⟨seen, keyed⟩ := current e old
  refine Holds.append ordered (List.mem_of_getElem? found) inBlock seen yFound ?_
    (loadsHold e old load y yFound memory world n entered)
  rintro type pointer isVolatile rfl
  exact fetch_perform_of_outlives sound entered found inBlock nextFound seen keyed load survives
    yFound

/-- All of them still hold behind a reusable instruction. -/
theorem LoadsHold.append_of_key? (loadsHold : LoadsHold I f block done table)
    (current : table.Current f done) (ordered : f.Ordered) (sound : oracle.Sound I f)
    (found : f.blocks[block]? = some b) (inBlock : done ++ [next] <+: b.members)
    (nextFound : f.instruction? next = some x) {key : ExpressionKey} (keyed : x.key? = some key) :
    LoadsHold I f block (done ++ [next]) table := by
  refine loadsHold.append current ordered sound found inBlock nextFound fun e mem => ⟨mem, ?_⟩
  intro writes
  rw [Instruction.mayWrite_of_isReusable (Instruction.isReusable_of_key? keyed)] at writes
  cases writes

/-- Moves that change no run keep the invariant, for a load that is still in the table is the load
it was. -/
theorem LoadsHold.transfer {g : Func} (loadsHold : LoadsHold I f block done table)
    (same : SameRuns I f g) (found : f.blocks[block]? = some b) (inBlock : done <+: b.members)
    {after : ExpressionTable} {scanned : List Nat} (current : table.Current f scanned)
    (currentAfter : after.Current g scanned)
    (kept : ∀ e ∈ after.entries, e.key.opcode.isLoad = true → e ∈ table.entries) :
    LoadsHold I g block done after := by
  intro e mem load x xFound memory world n entered
  have old := kept e mem load
  obtain ⟨y, yFound, yKeyed⟩ := Func.key?_eq_some.mp (current e old).2
  obtain ⟨z, zFound, zKeyed⟩ := Func.key?_eq_some.mp (currentAfter e mem).2
  obtain rfl := Option.some.inj (xFound.symm.trans zFound)
  obtain ⟨type, pointer, rfl⟩ := Instruction.exists_load_of_key? yKeyed load
  obtain rfl := Instruction.load_eq_of_key? yKeyed zKeyed
  rw [same.run] at entered ⊢
  have holds := loadsHold e old load _ yFound memory world n entered
  rw [Holds, same.reach memory world n block b done entered found inBlock]
  exact holds

end Loads

/-! ## Moves of a scan -/

section Moves

variable {f : Func} {oracle : Oracle} {block : Nat} {b : Block}

/-- A move between instructions that read no memory is anticipated. -/
theorem RepeatsPurely.anticipates (ordered : f.Ordered) (narrow : f.Narrow)
    (found : f.blocks[block]? = some b) {scanned : List Nat} (inBlock : scanned <+: b.members)
    {source target : Nat} (repeated : RepeatsPurely scanned f source target) :
    Anticipates I f source target := by
  have mem : b ∈ f.blocks := List.mem_of_getElem? found
  obtain ⟨key, repeated, pure⟩ := repeated
  obtain ⟨x, sourceFound, xKeyed⟩ := Func.key?_eq_some.mp repeated.source_key
  have targetFound := narrow.instruction?_eq repeated.source_key repeated.target_key sourceFound
  have reusable := Instruction.isReusable_of_key? xKeyed
  have notLoad : x.isLoad = false := by rw [Instruction.isLoad_of_key? xKeyed, pure]
  obtain ⟨rest, members⟩ := inBlock
  have inMembers := repeated.append rest
  rw [members] at inMembers
  obtain ⟨before, behind, split⟩ := List.append_of_mem inMembers.mem
  have reached : before ++ [source] <+: b.members := ⟨behind, by rw [split]; simp⟩
  have targetMem := (Func.idxOf_lt_iff_mem mem reached).mp inMembers.earlier
  refine ⟨block, b, before, x, found, reached, targetMem, sourceFound, reusable, ?_⟩
  intro memory world n _
  exact holds_of_pure ordered mem ((List.prefix_append before [source]).trans reached) targetMem
    targetFound reusable notLoad

/-- The same for a list of such moves. -/
theorem anticipates_of_repeatsPurely (ordered : f.Ordered) (narrow : f.Narrow)
    (found : f.blocks[block]? = some b) {scanned : List Nat} (inBlock : scanned <+: b.members)
    {events : List Event} (moves : EachMove (RepeatsPurely scanned) f events) :
    EachMove (Anticipates I) f events := by
  induction events generalizing f with
  | nil => trivial
  | cons event events ih =>
    cases event with
    | redirected source target users =>
      obtain ⟨repeated, moves⟩ := moves
      have anticipates := repeated.anticipates (I := I) ordered narrow found inBlock
      exact ⟨anticipates, ih (ordered_redirectUses ordered anticipates)
        (narrow.after [.redirected source target users]) found moves⟩
    | memoryWritten writer block removed queries => exact ih ordered narrow found moves
    | newExpression index => exact ih ordered narrow found moves

/-- The uses of a member move to the representative of its key, and this is anticipated. -/
theorem anticipates_of_hit (ordered : f.Ordered) (narrow : f.Narrow)
    (found : f.blocks[block]? = some b) {done : List Nat} {index representative : Nat}
    {key : ExpressionKey} {table : ExpressionTable} (inBlock : done ++ [index] <+: b.members)
    (keyed : f.key? index = some key) (current : table.Current f done)
    (entry : ⟨key, representative⟩ ∈ table.entries) (loadsHold : LoadsHold I f block done table) :
    Anticipates I f index representative := by
  have mem : b ∈ f.blocks := List.mem_of_getElem? found
  obtain ⟨seen, representativeKeyed⟩ := current _ entry
  obtain ⟨x, indexFound, xKeyed⟩ := Func.key?_eq_some.mp keyed
  have sameFound := narrow.instruction?_eq keyed representativeKeyed indexFound
  have reusable := Instruction.isReusable_of_key? xKeyed
  refine ⟨block, b, done, x, found, inBlock, seen, indexFound, reusable, ?_⟩
  intro memory world n entered
  cases load : x.isLoad with
  | true =>
    rw [Instruction.isLoad_of_key? xKeyed] at load
    exact loadsHold _ entry load x sameFound memory world n entered
  | false =>
    exact holds_of_pure ordered mem ((List.prefix_append done [index]).trans inBlock) seen sameFound
      reusable load

/-- What holds between two steps of a scan that started with `f`: every move was anticipated, and
every load in the table holds. -/
structure Upheld (I : Interpretation Val Mem World Byte) (f : Func) (block : Nat) (s : Scan) :
    Prop where
  moves : EachMove (Anticipates I) f s.events
  loads : LoadsHold I s.func block s.scanned s.table

/-- One step keeps it, if the oracle is sound for the function as it is. -/
theorem Upheld.step {s next : Scan} {index : Nat} {x : Instruction Value}
    (upheld : Upheld I f block s) (consistent : Scan.Consistent f s) (ordered : f.Ordered)
    (narrow : f.Narrow) (found : f.blocks[block]? = some b) (sound : oracle.Sound I s.func)
    (inBlock : s.scanned ++ [index] <+: b.members) (indexFound : s.func.instruction? index = some x)
    (stepped : Scan.Stepped oracle block s index x next) : Upheld I f block next := by
  have orderedHere := (sameRuns_after ordered upheld.moves).2
  have narrowHere := narrow.after s.events
  have foundHere : s.func.blocks[block]? = some b := by
    rw [consistent.func, Func.blocks_after, found]
  rw [← consistent.func] at orderedHere narrowHere
  cases stepped with
  | passed unkeyed =>
    obtain ⟨keep, report, passed, silent⟩ := Scan.exists_passWrite s oracle block index x
    have behind : LoadsHold I s.func block (s.scanned ++ [index])
        (s.passWrite oracle block index x).table :=
      upheld.loads.append consistent.current orderedHere sound foundHere inBlock indexFound
        fun e mem => Scan.mem_passWrite mem
    rw [passed] at behind ⊢
    exact ⟨eachMove_append.mpr ⟨upheld.moves, (silent _).2 _⟩, behind⟩
  | fresh keyed missing =>
    refine ⟨eachMove_append.mpr ⟨upheld.moves, trivial⟩, ?_⟩
    intro e mem load y yFound memory world n entered
    rcases ExpressionTable.mem_insert.mp mem with rfl | ⟨mem, -⟩
    · obtain rfl := Option.some.inj (indexFound.symm.trans yFound)
      exact holds_self orderedHere (List.mem_of_getElem? foundHere) inBlock indexFound
        (Instruction.isReusable_of_key? keyed)
    · exact upheld.loads.append_of_key? consistent.current orderedHere sound foundHere inBlock
        indexFound keyed e mem load y yFound memory world n entered
  | @repeated key representative keyed hit earlier =>
    have current := Scan.current_append consistent.current index
    obtain ⟨rest, settled, spec⟩ := settle_singleton ⟨index, representative, earlier⟩ current
    have first := anticipates_of_hit orderedHere narrowHere foundHere inBlock
      (Func.key?_eq_some.mpr ⟨x, indexFound, keyed⟩) consistent.current
      (ExpressionTable.find?_eq_some.mp hit) upheld.loads
    have orderedMoved := ordered_redirectUses orderedHere first
    have later : EachMove (Anticipates I) _ rest.events := anticipates_of_repeatsPurely orderedMoved
      (narrowHere.after [.redirected index representative []]) foundHere inBlock spec.moves
    rw [settled]
    refine ⟨eachMove_append.mpr ⟨upheld.moves, ?_⟩, ?_⟩
    · rw [← consistent.func]
      exact ⟨first, later⟩
    · -- the loads hold behind the member, and then in the function that the moves lead to
      have behind := upheld.loads.append_of_key? consistent.current orderedHere sound foundHere
        inBlock indexFound keyed
      have same : SameRuns I s.func rest.func := by
        rw [spec.func]
        exact (sameRuns_redirectUses orderedHere first).trans rfl
          (sameRuns_after orderedMoved later).1
      exact behind.transfer same foundHere inBlock current spec.current spec.reads

/-- So does a scan, wherever it stands in its block, if the oracle is sound for every function that
its moves make. -/
theorem upheld_run (ordered : f.Ordered) (narrow : f.Narrow) (found : f.blocks[block]? = some b)
    (sound : ∀ prior, prior <+: (Scan.run oracle block f b.members).events →
      oracle.Sound I (f.after prior)) {done : List Nat} (inBlock : done <+: b.members) :
    Upheld I f block (Scan.run oracle block f done) := by
  have mem : b ∈ f.blocks := List.mem_of_getElem? found
  induction done using List.reverseRecOn with
  | nil => exact ⟨trivial, fun e mem => by cases mem⟩
  | append_singleton done index ih =>
    have prior := (List.prefix_append done [index]).trans inBlock
    have consistent := Scan.consistent_run mem oracle block prior
    have soundHere := sound _ (Scan.prefix_events_run oracle block f prior)
    rw [← consistent.func] at soundHere
    obtain ⟨x, indexFound, stepped⟩ := Scan.stepped_run mem oracle block inBlock
    exact (ih prior).step consistent ordered narrow found soundHere
      (by rw [Scan.scanned_run]; exact inBlock) indexFound stepped

end Moves

/-! ## Whole passes -/

/-- A function and what a pass makes of it run alike: under every interpretation, from every memory
and world, they go through the same blocks with the same results, memory and world. The oracle must
be sound for the function and for each function that the moves of the pass make of it in between. -/
theorem run_reuse (I : Interpretation Val Mem World Byte) {oracle : Oracle} {f : Func}
    (ordered : f.Ordered) (narrow : f.Narrow)
    (sound : ∀ prior, prior <+: (reuse oracle f).events → oracle.Sound I (f.after prior))
    (memory : Mem) (world : World) (n : Nat) :
    I.run (reuse oracle f).func memory world n = I.run f memory world n := by
  have moves : (reuse oracle f).func = f.after (reuse oracle f).events ∧
      EachMove (Anticipates I) f (reuse oracle f).events := by
    refine reuse_moves oracle f fun prior block b found moved reported => ?_
    have orderedHere := (sameRuns_after ordered moved).2
    refine (upheld_run orderedHere (narrow.after prior) ?_ ?_ (List.prefix_refl _)).moves
    · rw [Func.blocks_after, found]
    · intro more inside
      rw [← Func.after_append]
      exact sound _ (((List.prefix_append_right_inj prior).mpr inside).trans reported)
  rw [moves.1]
  exact (sameRuns_after ordered moves.2).1.run memory world n

/-! ## A reading with bytes -/

/-- The number that `size` bytes from an address make up, the lowest first. -/
def readBytes (memory : Int → Int) (address : Int) : Nat → Int
  | 0 => 0
  | size + 1 => memory address + 256 * readBytes memory (address + 1) size

/-- Memory after a number was written to `size` bytes from an address. -/
def writeBytes (memory : Int → Int) (address : Int) (size : Nat) (value : Int) : Int → Int :=
  fun byte =>
    if address ≤ byte ∧ byte < address + size then value >>> (8 * (byte - address).toNat) % 256
    else memory byte

theorem readBytes_writeBytes {address pointer : Int} {size width : Nat}
    (apart : ∀ byte, pointer ≤ byte ∧ byte < pointer + width →
      ¬ (address ≤ byte ∧ byte < address + size)) (memory : Int → Int) (value : Int) :
    readBytes (writeBytes memory address size value) pointer width =
      readBytes memory pointer width := by
  induction width generalizing pointer with
  | zero => rfl
  | succ width ih =>
    have kept : writeBytes memory address size value pointer = memory pointer :=
      if_neg (apart pointer (by omega))
    rw [readBytes, readBytes, kept, ih fun byte inside => apart byte (by omega)]

/-- Integers in bytes: globals lie far apart, additions add, and the world is the block that comes
next. -/
def Interpretation.integers : Interpretation Int (Int → Int) (Option Nat) Int where
  undefined := 0
  argument _ := 0
  global index := index * 65536
  const value := value.toInt
  compute
    | .binary .add, [left, right] => left + right
    | _, _ => 0
  choose previous incoming :=
    ((incoming.find? fun (block, _) => decide (previous = some block)).map Prod.snd).getD 0
  fetch type pointer memory := readBytes memory pointer type.byteSize
  act
    | .store type value address _, memory, world =>
      ⟨0, writeBytes memory address type.byteSize value, world⟩
    | .load type pointer _, memory, world => ⟨readBytes memory pointer type.byteSize, memory, world⟩
    | .branch target, memory, _ => ⟨0, memory, some target⟩
    | .condBranch condition ifTrue ifFalse, memory, _ =>
      ⟨0, memory, some (if condition = 0 then ifFalse else ifTrue)⟩
    | .ret _, memory, _ => ⟨0, memory, none⟩
    | _, memory, world => ⟨0, memory, world⟩
  next world := world
  touches address size byte := address ≤ byte ∧ byte < address + size
  fetch_act x memory world type pointer silent := by
    cases x with
    | store storeType value address isVolatile => cases silent
    | _ => rfl
  fetch_act_store stored value address isVolatile memory world type pointer apart :=
    readBytes_writeBytes apart memory value

/-- Takes different globals to be apart, and knows nothing else. -/
def Oracle.byGlobal : Oracle := fun a b =>
  match a.pointer, b.pointer with
  | .global i, .global j => if i = j then .may else .no
  | _, _ => .may

theorem Instruction.size_le_of_location? {x : Instruction Value} {l : Location}
    (located : x.location? = some l) : l.size ≤ 8192 := by
  have bounded : ∀ type : IrType, type.byteSize ≤ 8192 := by
    intro type
    cases type with
    | int bits =>
      have := bits.toNat_lt
      rw [IrType.byteSize]
      split <;> omega
    | _ => simp [IrType.byteSize]
  cases x with
  | load type pointer isVolatile =>
    obtain rfl := Option.some.inj located
    exact bounded type
  | store type value pointer isVolatile =>
    obtain rfl := Option.some.inj located
    exact bounded type
  | _ => cases located

/-- Where globals lie far apart, accesses of different globals touch no common byte. -/
theorem sound_byGlobal (f : Func) : Oracle.byGlobal.Sound .integers f := by
  intro memory world n block b done load store loaded stored _ _ _ _ loads stores apart
  obtain ⟨x, -, located⟩ := Option.bind_eq_some_iff.mp loads
  obtain ⟨y, -, located'⟩ := Option.bind_eq_some_iff.mp stores
  rw [Instruction.loadLocation?, Option.ite_none_right_eq_some] at located
  rw [Instruction.storeLocation?, Option.ite_none_right_eq_some] at located'
  obtain ⟨pointer, size⟩ := loaded
  obtain ⟨address, width⟩ := stored
  have loadedSize : size ≤ 8192 := Instruction.size_le_of_location? located.2
  have storedSize : width ≤ 8192 := Instruction.size_le_of_location? located'.2
  unfold Oracle.byGlobal at apart
  split at apart
  · next i j iSame jSame =>
    simp only at iSame jSame
    subst iSame jSame
    split at apart
    · cases apart
    · next distinct =>
      rintro byte ⟨low, high⟩ ⟨low', high'⟩
      simp only [Interpretation.eval, Interpretation.integers] at low high low' high'
      omega
  · cases apart

/-- A loop that counts with two phis, of which the second is the first once the second sum is
redirected, and that loads one global before and behind a store to another. -/
def countingLoop : Func where
  name := "f"
  arguments := []
  globals := ["g", "h"]
  definitions :=
    [⟨.branch 1, none⟩,
      ⟨.phi [(0, .const 0), (1, .inst 5)], some "i"⟩,
      ⟨.phi [(0, .const 0), (1, .inst 6)], some "j"⟩,
      ⟨.load (.int 32) (.global 0) false, some "a"⟩,
      ⟨.store (.int 32) (.inst 1) (.global 1) false, none⟩,
      ⟨.binary .add (.inst 1) (.const 1), some "m"⟩,
      ⟨.binary .add (.inst 1) (.const 1), some "n"⟩,
      ⟨.load (.int 32) (.global 0) false, some "b"⟩,
      ⟨.binary .add (.inst 7) (.inst 2), some "s"⟩,
      ⟨.store (.int 32) (.inst 8) (.global 0) false, none⟩,
      ⟨.condBranch (.inst 6) 1 2, none⟩,
      ⟨.ret (some (.inst 8)), none⟩]
  blocks := [⟨"entry", [0]⟩, ⟨"loop", [1, 2, 3, 4, 5, 6, 7, 8, 9, 10]⟩, ⟨"exit", [11]⟩]
  placed := by decide

/-- A pass over the loop changes it and none of its runs. -/
theorem run_reuse_countingLoop :
    countingLoop.Ordered ∧ countingLoop.Narrow ∧
      (∀ prior, prior <+: (reuse .byGlobal countingLoop).events →
        Oracle.byGlobal.Sound .integers (countingLoop.after prior)) ∧
      (reuse .byGlobal countingLoop).func.instruction? 8 =
        some (.binary .add (.inst 3) (.inst 1)) ∧
      ∀ memory world n,
        Interpretation.integers.run (reuse .byGlobal countingLoop).func memory world n =
          Interpretation.integers.run countingLoop memory world n := by
  have ordered : countingLoop.Ordered := by decide
  have narrow : countingLoop.Narrow := by decide
  have sound : ∀ prior, prior <+: (reuse .byGlobal countingLoop).events →
      Oracle.byGlobal.Sound .integers (countingLoop.after prior) := fun prior _ => sound_byGlobal _
  exact ⟨ordered, narrow, sound, by decide +kernel, run_reuse .integers ordered narrow sound⟩

end BlockReuse
