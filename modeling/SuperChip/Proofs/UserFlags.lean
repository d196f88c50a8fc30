import SuperChip.Proofs.Execution
import SuperChip.Proofs.Timers

/-!
# User flags persist

One instruction saves registers in the user flags, another one brings them back, and nothing else
changes a flag: no other instruction, no fault, no tick, and no reset, which forgets every other
register.  So what was saved comes back after any operations that save nothing.

The two instructions may name different registers.  Those up to the lesser one come back as they
were saved; beyond it there come back flags that are older than the saving, or nothing.
-/

namespace SuperChip

/-- A flag is changed by saving it. -/
theorem Instruction.flag_mem_footprint_iff {i : Instruction} {y : Register} :
    .flag y ∈ i.footprint ↔ ∃ x, i = .saveFlags x ∧ y ≤ x := by
  cases i <;> simp [Instruction.footprint]

namespace Machine

variable {m m' n : Machine}

/-! ## Single operations -/

/-- A word that saves nothing leaves the flags alone, fault or not. -/
theorem flags_execute {w : Word} (hw : ∀ x, Instruction.decode w ≠ .saveFlags x) :
    (m.execute w).1.registers.flags = m.registers.flags := by
  cases hf : (m.execute w).2 with
  | none =>
    apply Bank.ext
    intro y
    apply (within_execute hf).flags
    rw [Instruction.flag_mem_footprint_iff]
    rintro ⟨x, hx, -⟩
    exact hw x hx
  | some f =>
    obtain ⟨lines, ht⟩ := m.exists_trace_eq w
    rw [execute_of_fault (by simp [hf]), ht]

/-- An operation that saves nothing leaves the flags alone, refused or not. -/
theorem flags_operate {o : Operation} (ho : ∀ x, m.executes? o ≠ some (.saveFlags x))
    {r : Machine × Option Fault} (hr : m.operate o = some r) :
    r.1.registers.flags = m.registers.flags := by
  cases he : m.execution? o with
  | some e =>
    rw [executes?_eq_map, he] at ho
    rw [operate_of_execution? he, Option.some.injEq] at hr
    rw [← hr, flags_execute fun x hx ↦ ho x (congrArg some hx), (banks_of_execution? he).2]
  | none =>
    by_cases hstep : o = .step
    · cases hstep
      cases hr
      rw [step_of_execution?_eq_none he]
    by_cases hreset : o = .reset
    · cases hreset
      cases hr
      rfl
    have hexecute : ∀ w, o ≠ .execute w := by
      rintro w rfl
      cases he
    exact congrArg Registers.flags (registers_operate hstep hexecute hreset hr)

/-- Operations that save nothing leave the flags alone. -/
theorem flags_operateAll {ops : List Operation}
    (hops : ∀ e ∈ m.executed ops, ∀ x, e.2 ≠ .saveFlags x) (hn : m.operateAll ops = some n) :
    n.registers.flags = m.registers.flags := by
  induction ops generalizing m with
  | nil =>
    cases hn
    rfl
  | cons o ops ih =>
    obtain ⟨r, hr, hn⟩ := exists_of_operateAll_cons hn
    rw [(executed_cons ops hr).1] at hops
    have hrest := ih (fun e he ↦ hops e (List.mem_append_right _ he)) hn
    have hfirst : ∀ x, m.executes? o ≠ some (.saveFlags x) := by
      intro x hx
      refine hops (m, .saveFlags x) (List.mem_append_left _ ?_) x rfl
      rw [hx]
      exact List.mem_singleton_self _
    rw [hrest, flags_operate hfirst hr]

/-! ## Saving and loading -/

/-- Saving puts the registers up to `x` in the flags. -/
theorem operate_saveFlags {o : Operation} {x : Register}
    (ho : m.executes? o = some (.saveFlags x)) : ∃ m', m.operate o = some (m', none) ∧
      m'.registers.flags = m.registers.flags.copyUpTo m.registers.v x := by
  obtain ⟨e, he, hd⟩ := exists_execution_of_executes? ho
  obtain ⟨hv, hflags⟩ := banks_of_execution? he
  obtain ⟨lines, ht⟩ := e.1.exists_trace_eq e.2
  rw [operate_of_execution? he, execute, hd, ht, ← hv, ← hflags]
  refine ⟨_, rfl, ?_⟩
  rfl

/-- Loading takes the registers up to `x` from the flags, which stay as they are. -/
theorem operate_loadFlags {o : Operation} {x : Register}
    (ho : m.executes? o = some (.loadFlags x)) : ∃ m', m.operate o = some (m', none) ∧
      m'.registers.flags = m.registers.flags ∧
      m'.registers.v = m.registers.v.copyUpTo m.registers.flags x := by
  obtain ⟨e, he, hd⟩ := exists_execution_of_executes? ho
  obtain ⟨hv, hflags⟩ := banks_of_execution? he
  obtain ⟨lines, ht⟩ := e.1.exists_trace_eq e.2
  rw [operate_of_execution? he, execute, hd, ht, ← hv, ← hflags]
  refine ⟨_, rfl, ?_, ?_⟩
  · rfl
  · rfl

/-- User flags persist.

Saving `V0` … `Vx` succeeds.  Whatever operations follow that save nothing, resets included, the
flags stay as the saving has left them.  When `V0` … `Vx'` are brought back then, which succeeds
too, each register up to both `x` and `x'` holds what it held when it was saved, each one beyond `x`
and up to `x'` what its flag held then, and each one beyond `x'` what it held just before.  The
flags are not changed by it. -/
theorem flags_persist {save : Operation} {x : Register}
    (hsave : m.executes? save = some (.saveFlags x)) :
    ∃ m', m.operate save = some (m', none) ∧
      ∀ (ops : List Operation) (n : Machine),
        (∀ e ∈ m'.executed ops, ∀ y, e.2 ≠ .saveFlags y) → m'.operateAll ops = some n →
        n.registers.flags = m'.registers.flags ∧
        ∀ (load : Operation) (x' : Register), n.executes? load = some (.loadFlags x') →
          ∃ n', n.operate load = some (n', none) ∧
            n'.registers.flags = n.registers.flags ∧
            (∀ k, k ≤ x → k ≤ x' → n'.registers.get k = m.registers.get k) ∧
            (∀ k, x < k → k ≤ x' → n'.registers.get k = m.registers.flags.get k) ∧
            ∀ k, x' < k → n'.registers.get k = n.registers.get k := by
  obtain ⟨m', hm, hflags⟩ := operate_saveFlags hsave
  refine ⟨m', hm, ?_⟩
  intro ops n hops hn
  have hkept := flags_operateAll hops hn
  refine ⟨hkept, ?_⟩
  intro load x' hload
  obtain ⟨n', hn', hflags', hv⟩ := operate_loadFlags hload
  rw [hkept, hflags] at hv
  have hget (k : Register) : n'.registers.get k =
      if k ≤ x' then if k ≤ x then m.registers.get k else m.registers.flags.get k
      else n.registers.get k := by
    have hk : n'.registers.get k = n'.registers.v.get k := rfl
    rw [hk, hv, get_copyUpTo, get_copyUpTo]
    rfl
  refine ⟨n', hn', hflags', ?_, ?_, ?_⟩
  · intro k hx hx'
    rw [hget, if_pos hx', if_pos hx]
  · intro k hx hx'
    rw [hget, if_pos hx', if_neg (Fin.not_le.mpr hx)]
  · intro k hx'
    rw [hget, if_neg (Fin.not_le.mpr hx')]

/-- A machine with numbers in its registers, and others in its flags. -/
def numbered : Machine where
  registers := { v := Vector.ofFn fun k ↦ UInt8.ofNat k, flags := Vector.replicate 16 0xEE }
  random := .cycle [] []

/-- Three registers are saved.  They come back after a reset, with a fourth one from a flag that is
older; what else is loaded, typed and executed in between does not matter. -/
theorem flags_persist_numbered : ∃ m' n n',
    numbered.operate (.execute 0xF275) = some (m', none) ∧
    m'.operateAll [.setResolution true, .load [0x63, 0x09], .step, .setKey 5 true, .reset, .tick,
      .execute 0x6005] = some n ∧
    n.operate (.execute 0xF385) = some (n', none) ∧
    n'.registers.get 0 = 0 ∧ n'.registers.get 1 = 1 ∧ n'.registers.get 2 = 2 ∧
    n'.registers.get 3 = 0xEE := by
  have hsave : numbered.executes? (.execute 0xF275) = some (.saveFlags 2) := by decide
  obtain ⟨m', hm, hops⟩ := flags_persist hsave
  obtain rfl : (numbered.execute 0xF275).1 = m' := congrArg Prod.fst (Option.some.inj hm)
  have hexecuted : ((numbered.execute 0xF275).1.executed [.setResolution true,
      .load [0x63, 0x09], .step, .setKey 5 true, .reset, .tick, .execute 0x6005]).map Prod.snd =
        [.setByte 3 9, .setByte 0 5] := by
    decide +kernel
  have hsome : ((numbered.execute 0xF275).1.operateAll [.setResolution true,
      .load [0x63, 0x09], .step, .setKey 5 true, .reset, .tick, .execute 0x6005]).isSome := by
    decide +kernel
  obtain ⟨n, hn⟩ := Option.isSome_iff_exists.mp hsome
  have hnone : ∀ e ∈ (numbered.execute 0xF275).1.executed [.setResolution true,
      .load [0x63, 0x09], .step, .setKey 5 true, .reset, .tick, .execute 0x6005],
        ∀ y, e.2 ≠ .saveFlags y := by
    intro e he y hy
    have hmem := List.mem_map_of_mem (f := Prod.snd) he
    rw [hexecuted, hy] at hmem
    simp at hmem
  have hload : n.executes? (.execute 0xF385) = some (.loadFlags 3) := by
    change some (Instruction.decode 0xF385) = _
    decide
  obtain ⟨-, hload'⟩ := hops _ n hnone hn
  obtain ⟨n', hn', -, hsaved, holder, -⟩ := hload' _ 3 hload
  refine ⟨_, n, n', hm, hn, hn', ?_, ?_, ?_, ?_⟩
  · rw [hsaved 0 (by decide) (by decide)]
    decide
  · rw [hsaved 1 (by decide) (by decide)]
    decide
  · rw [hsaved 2 (by decide) (by decide)]
    decide
  · rw [holder 3 (by decide) (by decide)]
    decide

end Machine

end SuperChip
