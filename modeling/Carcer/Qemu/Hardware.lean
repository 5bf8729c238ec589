import Carcer.Json.Codec
import Carcer.Provenance.Planning

/-!
# The command line of QEMU

`HardwareProfile.QEMUCommandArguments` of `internal/qemu/hardware.go`. The path of the boot image is
written as JSON; the paths of the two sockets are put as they are between the commas of an option
string, in which QEMU reads a comma as the end of an option and two commas as one.

## Main definitions

* `HardwareProfile`, `validate`, `qemuCommandArguments`: the functions of the source
* `options`, `ReadsSockets`: how QEMU reads an option string, and what it is to read

## Main results

* `length_optionsFrom`: how long the options of an option string are
* `readsSockets_iff`: QEMU reads the paths of the sockets when they contain no comma
-/

namespace Carcer.Qemu

open Carcer.Wire Carcer.Json Carcer.Provenance List

structure HardwareProfile where
  profile : Bytes
  machine : Bytes
  accelerator : Bytes
  cpuModel : Bytes
  vcpus : ℤ
  memoryMiB : ℤ
  graphics : Bytes
  network : Bytes
  writableBlockDevices : List Bytes

inductive HardwareError
  /-- "invalid CodexOS hardware profile" -/
  | profile
  /-- "invalid CodexOS hardware machine" -/
  | machine
  /-- "invalid CodexOS hardware accelerator" -/
  | accelerator
  /-- "invalid CodexOS hardware CPU model" -/
  | cpuModel
  /-- "invalid CodexOS hardware vCPU count" -/
  | vcpus
  /-- "invalid CodexOS hardware memory size" -/
  | memory
  /-- "invalid CodexOS peripheral hardware" -/
  | peripheral
  /-- "writable block devices are not supported" -/
  | writable
  /-- "QEMU path is not valid UTF-8" -/
  | pathEncoding

def experimentHardwareProfile : HardwareProfile :=
  ⟨ascii "experiment-v1", ascii "q35", ascii "kvm", ascii "host", 4, 8192, ascii "std-vga",
    ascii "none", []⟩

/-- `hardwareProfilePattern` and `hardwareCPUPattern`: one to 64 characters of a class. -/
def matchesClass (inClass : UInt8 → Bool) (text : Bytes) : Bool :=
  1 ≤ text.length && text.length ≤ 64 && text.all inClass

/-- A character of `a-z0-9`. -/
def isLowerOrDigit (byte : UInt8) : Bool :=
  0x61 ≤ byte && byte ≤ 0x7a || isDigit byte

/-- A character of `A-Za-z0-9_.+-`. -/
def isCPUCharacter (byte : UInt8) : Bool :=
  isLowerOrDigit byte || 0x41 ≤ byte && byte ≤ 0x5a || (ascii "_.+-").contains byte

def HardwareProfile.validate (p : HardwareProfile) : Except HardwareError Unit := do
  failIf (!(matchesClass (fun byte => isLowerOrDigit byte || byte = 0x2d) p.profile &&
    p.profile.head? ≠ some 0x2d)) .profile
  failIf (p.machine ≠ ascii "q35") .machine
  failIf (p.accelerator ≠ ascii "kvm" ∧ p.accelerator ≠ ascii "kvm:tcg") .accelerator
  failIf (!matchesClass isCPUCharacter p.cpuModel) .cpuModel
  failIf (p.vcpus < 1 ∨ p.vcpus > 256) .vcpus
  failIf (p.memoryMiB < 1 ∨ p.memoryMiB > 1048576) .memory
  failIf (p.graphics ≠ ascii "std-vga" ∨ p.network ≠ ascii "none") .peripheral
  failIf (p.writableBlockDevices.length ≠ 0) .writable

/-- The layout of `json.Encoder`. -/
def compact : Layout := ⟨fun _ => [], [], fun _ => rfl, rfl⟩

/-- `compactASCIIJSON` on a structure. -/
def compactASCIIJSON (members : List (Bytes × Value)) : Bytes :=
  asciiJSON (print (escape false) compact 0 (.object members))

/-- The arguments of `QEMUCommandArguments` before those of the sockets. -/
def HardwareProfile.machineArguments (p : HardwareProfile) (bootISO : Bytes) : List Bytes :=
  let bootFile := compactASCIIJSON [(ascii "driver", .string (ascii "file")),
    (ascii "filename", .string bootISO), (ascii "node-name", .string (ascii "codexos-boot-file")),
    (ascii "read-only", .bool true)]
  let bootRaw := compactASCIIJSON [(ascii "driver", .string (ascii "raw")),
    (ascii "file", .string (ascii "codexos-boot-file")),
    (ascii "node-name", .string (ascii "codexos-boot-cd")), (ascii "read-only", .bool true)]
  [ascii "-machine", p.machine ++ ascii ",accel=" ++ p.accelerator ++
      ascii ",pcspk-audiodev=codexos-noaudio",
    ascii "-cpu", p.cpuModel,
    ascii "-smp", Codec.integerLiteral p.vcpus,
    ascii "-m", Codec.integerLiteral p.memoryMiB ++ ascii "M",
    ascii "-nodefaults",
    ascii "-display", ascii "none",
    ascii "-monitor", ascii "none",
    ascii "-no-reboot",
    ascii "-nic", ascii "none",
    ascii "-audiodev", ascii "none,id=codexos-noaudio",
    ascii "-blockdev", bootFile,
    ascii "-blockdev", bootRaw,
    ascii "-device", ascii "ide-cd,drive=codexos-boot-cd,bootindex=1",
    ascii "-device", ascii "VGA"]

/-- The arguments of the sockets. -/
def socketArguments (qmpSocket serialSocket : Bytes) : List Bytes :=
  [ascii "-chardev", ascii "socket,id=codexos-com1,path=" ++ serialSocket ++
      ascii ",server=on,wait=off",
    ascii "-device", ascii "isa-serial,chardev=codexos-com1,index=0",
    ascii "-qmp", ascii "unix:" ++ qmpSocket ++ ascii ",server=on,wait=off"]

def HardwareProfile.qemuCommandArguments (p : HardwareProfile)
    (bootISO qmpSocket serialSocket : Bytes) : Except HardwareError (List Bytes) := do
  p.validate
  failIf (!utf8Valid bootISO ∨ !utf8Valid qmpSocket ∨ !utf8Valid serialSocket) .pathEncoding
  return p.machineArguments bootISO ++ socketArguments qmpSocket serialSocket

/-! ### Option strings -/

/-- The options of an option string behind the part `option` of its first one: a comma ends an
option, and two commas stand for one. -/
def optionsFrom (option : Bytes) : Bytes → List Bytes
  | [] => [option]
  | [byte] => if byte = 0x2c then [option, []] else [option ++ [byte]]
  | byte :: next :: rest =>
    if byte = 0x2c then
      if next = 0x2c then optionsFrom (option ++ [0x2c]) rest
      else option :: optionsFrom [] (next :: rest)
    else optionsFrom (option ++ [byte]) (next :: rest)

/-- The options of an option string. -/
def options (text : Bytes) : List Bytes := optionsFrom [] text

/-- A comma in an option takes two characters of the option string. -/
theorem length_optionsFrom (option text : Bytes) :
    ((optionsFrom option text).map fun o => o.length + o.count 0x2c + 1).sum =
      option.length + option.count 0x2c + text.length + 1 := by
  fun_induction optionsFrom option text with
  | case1 option => simp
  | case2 option => simp
  | case3 option byte h => simp [h]; omega
  | case4 option rest ih => rw [ih]; simp; omega
  | case5 option next rest h ih => rw [map_cons, sum_cons, ih]; simp; omega
  | case6 option byte next rest h ih => rw [ih]; simp [h]; omega

theorem optionsFrom_append {text : Bytes} (h : 0x2c ∉ text) (option rest : Bytes) :
    optionsFrom option (text ++ rest) = optionsFrom (option ++ text) rest := by
  induction text generalizing option with
  | nil => simp
  | cons byte text ih =>
    rw [mem_cons, not_or] at h
    obtain ⟨hbyte, htext⟩ := h
    have hstep : optionsFrom option (byte :: (text ++ rest)) =
        optionsFrom (option ++ [byte]) (text ++ rest) := by
      cases text ++ rest <;> simp [optionsFrom, Ne.symm hbyte]
    rw [cons_append, hstep, ih htext, append_assoc, singleton_append]

theorem optionsFrom_comma {text : Bytes} (h : ∃ byte ∈ text.head?, byte ≠ 0x2c) (option : Bytes) :
    optionsFrom option ([0x2c] ++ text) = option :: optionsFrom [] text := by
  obtain ⟨byte, hhead, hbyte⟩ := h
  cases text with
  | nil => cases hhead
  | cons first text =>
    obtain rfl : first = byte := by simpa using hhead
    simp [optionsFrom, hbyte]

/-- QEMU reads the paths of the sockets, and no further options, from the arguments. -/
def ReadsSockets (arguments : List Bytes) (qmpSocket serialSocket : Bytes) : Prop :=
  ∃ front chardev monitor, arguments = front ++ [ascii "-chardev", chardev, ascii "-device",
      ascii "isa-serial,chardev=codexos-com1,index=0", ascii "-qmp", monitor] ∧
    options chardev = [ascii "socket", ascii "id=codexos-com1", ascii "path=" ++ serialSocket,
      ascii "server=on", ascii "wait=off"] ∧
    options monitor = [ascii "unix:" ++ qmpSocket, ascii "server=on", ascii "wait=off"]

theorem optionsFrom_path {path : Bytes} (h : 0x2c ∉ path) (option : Bytes) :
    optionsFrom option (path ++ ascii ",server=on,wait=off") =
      [option ++ path, ascii "server=on", ascii "wait=off"] := by
  rw [optionsFrom_append h]
  simp [ascii, optionsFrom]

theorem sum_options {text : Bytes} {expected : List Bytes} (h : options text = expected) :
    (expected.map fun o => o.length + o.count 0x2c + 1).sum = text.length + 1 := by
  rw [← h, options, length_optionsFrom]
  simp

theorem options_chardev_iff (path : Bytes) :
    options (ascii "socket,id=codexos-com1,path=" ++ path ++ ascii ",server=on,wait=off") =
      [ascii "socket", ascii "id=codexos-com1", ascii "path=" ++ path, ascii "server=on",
        ascii "wait=off"] ↔ 0x2c ∉ path := by
  constructor
  · intro h
    have hlength := sum_options h
    refine count_eq_zero.mp ?_
    simp [ascii] at hlength
    omega
  · intro h
    have hfront : ascii "socket,id=codexos-com1,path=" =
        ascii "socket" ++ ([0x2c] ++ (ascii "id=codexos-com1" ++ ([0x2c] ++ ascii "path="))) := by
      decide
    simp only [hfront, options, append_assoc]
    rw [optionsFrom_append (by decide), optionsFrom_comma ⟨_, rfl, by decide⟩,
      optionsFrom_append (by decide), optionsFrom_comma ⟨_, rfl, by decide⟩,
      optionsFrom_append (by decide), optionsFrom_path h]
    rfl

theorem options_qmp_iff (path : Bytes) :
    options (ascii "unix:" ++ path ++ ascii ",server=on,wait=off") =
      [ascii "unix:" ++ path, ascii "server=on", ascii "wait=off"] ↔ 0x2c ∉ path := by
  constructor
  · intro h
    have hlength := sum_options h
    refine count_eq_zero.mp ?_
    simp [ascii] at hlength
    omega
  · intro h
    rw [options, append_assoc, optionsFrom_append (by decide), optionsFrom_path h]
    rfl

/-- **QEMU reads the paths of the sockets when neither contains a comma**, and only then. -/
theorem readsSockets_iff {p : HardwareProfile} {bootISO qmpSocket serialSocket : Bytes}
    {arguments : List Bytes}
    (h : p.qemuCommandArguments bootISO qmpSocket serialSocket = .ok arguments) :
    ReadsSockets arguments qmpSocket serialSocket ↔ 0x2c ∉ serialSocket ∧ 0x2c ∉ qmpSocket := by
  simp only [HardwareProfile.qemuCommandArguments, bind_eq_ok, pure, Except.pure, Except.ok.injEq]
    at h
  obtain ⟨_, -, _, -, rfl⟩ := h
  rw [← options_chardev_iff, ← options_qmp_iff]
  constructor
  · rintro ⟨front, chardev, monitor, heq, hchardev, hmonitor⟩
    have hlast := (List.append_inj' heq rfl).2
    simp only [socketArguments, List.cons.injEq, true_and, and_true] at hlast
    obtain ⟨rfl, rfl⟩ := hlast
    exact ⟨hchardev, hmonitor⟩
  · rintro ⟨hchardev, hmonitor⟩
    exact ⟨_, _, _, rfl, hchardev, hmonitor⟩

/-- The profile of the experiment is valid, so only the paths are checked. -/
theorem qemuCommandArguments_experiment {bootISO qmpSocket serialSocket : Bytes}
    (h : utf8Valid bootISO ∧ utf8Valid qmpSocket ∧ utf8Valid serialSocket) :
    experimentHardwareProfile.qemuCommandArguments bootISO qmpSocket serialSocket =
      .ok (experimentHardwareProfile.machineArguments bootISO ++
        socketArguments qmpSocket serialSocket) := by
  have hvalid : experimentHardwareProfile.validate = .ok () := rfl
  rw [HardwareProfile.qemuCommandArguments, hvalid]
  simp [h, failIf, bind, Except.bind, pure, Except.pure]

/-- A run directory without a comma. -/
theorem plain_sockets_read : ∃ arguments,
    experimentHardwareProfile.qemuCommandArguments (ascii "/run/boot.iso") (ascii "/run/qmp.sock")
      (ascii "/run/serial.sock") = .ok arguments ∧
    ReadsSockets arguments (ascii "/run/qmp.sock") (ascii "/run/serial.sock") := by
  have h := @qemuCommandArguments_experiment (ascii "/run/boot.iso") (ascii "/run/qmp.sock")
    (ascii "/run/serial.sock") (by decide +kernel)
  exact ⟨_, h, (readsSockets_iff h).mpr (by decide)⟩

/-- A run directory with a comma in its name: QEMU gets the path up to the comma, and an option
more. -/
theorem comma_splits_path : ∃ front chardev rest,
    experimentHardwareProfile.qemuCommandArguments (ascii "/run,1/boot.iso")
      (ascii "/run,1/qmp.sock") (ascii "/run,1/serial.sock") =
        .ok (front ++ ascii "-chardev" :: chardev :: rest) ∧
    options chardev = [ascii "socket", ascii "id=codexos-com1", ascii "path=/run",
      ascii "1/serial.sock", ascii "server=on", ascii "wait=off"] :=
  ⟨_, _, _, qemuCommandArguments_experiment (by decide +kernel), by decide⟩

end Carcer.Qemu
