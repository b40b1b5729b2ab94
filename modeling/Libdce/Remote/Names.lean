import Libdce.Host.Stubs
import Libdce.Remote.Handlers

/-!
# Names in a message

The stubs copy at most 24 characters into a name of 25 bytes and do not write the
last byte. Whether the handler finds a terminated name then depends on what the
message contained before.
-/

namespace Libdce.Remote

open Foundation.Bytes Host

/-- The handlers of `Engine_open` and `VIDDEC3_create` give Codec Engine the name
cut to 24 characters exactly when it is shorter than that, or the last byte of the
name in the message was NUL already. -/
theorem name_terminated_iff (pid : Pid) (mem data : Buffer) (name : CString) :
    (decode (fillEngineOpen pid data name) .engineOpen =
        .engineOpen (some (name.cut (nameDim - 1))) ↔
      name.chars.length < nameDim - 1 ∨ data (EngineOpenArgs.inName + (nameDim - 1)) = 0) ∧
    ∀ engine params,
      (decode (fillViddec3Create pid mem data engine name params) .viddec3Create =
          .viddec3Create engine (some (name.cut (nameDim - 1))) (virt2ducati mem params) ↔
        name.chars.length < nameDim - 1 ∨
          data (Viddec3CreateArgs.inName + (nameDim - 1)) = 0) := by
  constructor
  · have hlast : data.put32 EngineOpenArgs.inPid pid (EngineOpenArgs.inName + (nameDim - 1)) =
        data (EngineOpenArgs.inName + (nameDim - 1)) :=
      Buffer.put32_apply_of_apart pid (by decide)
    have hname := Buffer.string_strncpy_iff (b := data.put32 EngineOpenArgs.inPid pid)
      (i := EngineOpenArgs.inName) (n := nameDim - 1) name
    rw [hlast] at hname
    simp only [decode, fillEngineOpen, CeRequest.engineOpen.injEq]
    exact hname
  · intro engine params
    have hlast : (data.put32 Viddec3CreateArgs.inPid pid).put32 Viddec3CreateArgs.inEngine engine
          (Viddec3CreateArgs.inName + (nameDim - 1)) =
        data (Viddec3CreateArgs.inName + (nameDim - 1)) := by
      rw [Buffer.put32_apply_of_apart engine (by decide),
        Buffer.put32_apply_of_apart pid (by decide)]
    have hname := Buffer.string_strncpy_iff
      (b := (data.put32 Viddec3CreateArgs.inPid pid).put32 Viddec3CreateArgs.inEngine engine)
      (i := Viddec3CreateArgs.inName) (n := nameDim - 1) name
    rw [hlast] at hname
    simp (disch := decide) only [decode, fillViddec3Create, CeRequest.viddec3Create.injEq,
      Buffer.get32_put32_of_apart, Buffer.get32_strncpy_of_apart, Buffer.get32_put32,
      Buffer.string_put32_of_apart, true_and, and_true]
    exact hname

/-- A name of 24 characters. -/
def longName : CString := ⟨List.replicate 24 97, by decide⟩

/-- In a message full of ones the name of 24 characters is not terminated. -/
theorem name_not_terminated :
    decode (fillEngineOpen 7 (fun _ => 0xff) longName) .engineOpen = .engineOpen none ∧
    decode (fillViddec3Create 7 (fun _ => 0) (fun _ => 0xff) 5 longName 4096) .viddec3Create =
      .viddec3Create 5 none 0 := by
  decide +kernel

end Libdce.Remote
