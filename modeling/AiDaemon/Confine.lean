import AiDaemon.PacketFilter
import AiDaemon.Text

/-!
# The cage of the decoder (`confine`)

Before it parses a byte it was sent, the decoder gives up new privileges and has the
kernel run a filter in front of each of its system calls.  The filter compares the
architecture, then the number of the call with each of a list, and kills where it
finds nothing.

The numbers of the calls are the platform's, so they are a parameter.  The result is
`confined_to_the_list`: where `apply` succeeds the kernel took the filter that was
built, it is one a kernel takes, and it lets a call through exactly when its number
is on the list and its architecture is the one that was compiled for.
-/

namespace AiDaemon.Confine

open PacketFilter

/-! ### The source -/

inductive Arch where
  | x86_64
  | aarch64
  | other
deriving DecidableEq, Repr

/-- The system calls the list names. -/
inductive Syscall where
  | read | write | readv | writev | lseek | close | fstat | statx | ppoll
  | mmap | munmap | mremap | mprotect | brk | madvise
  | futex | rtSigreturn | rtSigprocmask | rtSigaction | sigaltstack | setRobustList | rseq
  | getpid | gettid | tgkill | getrandom | schedYield | clockGettime | clockNanosleep | nanosleep
  | restartSyscall | prlimit64 | exit | exitGroup
  | poll
deriving DecidableEq, Repr

/-- `libc::SYS_…`, each a `c_long`. -/
abbrev Libc := Syscall → Int

/-- What the operating system answers a call that failed. -/
structure OsError where
  code : Nat
  text : Text
deriving DecidableEq, Repr

/-- The calls that ask the kernel for confinement. -/
structure Kernel where
  noNewPrivs : Except OsError Unit
  seccomp : List Insn → Except OsError Unit
  prctl : List Insn → Except OsError Unit

/-- `AUDIT_ARCH`, where there is one. -/
def auditArch : Arch → Option UInt32
  | .x86_64 => some 0xc000003e
  | .aarch64 => some 0xc00000b7
  | .other => none

def ldWAbs : UInt16 := 0x20

def jmpJeqK : UInt16 := 0x15

def retK : UInt16 := 0x06

def archOffset : UInt32 := 4

def nrOffset : UInt32 := 0

def allow : UInt32 := 0x7fff0000

def killProcess : UInt32 := 0x80000000

/-- `ARCH_ONLY` -/
def archOnly : Arch → List Syscall
  | .x86_64 => [.poll]
  | _ => []

def allowed (arch : Arch) : List Syscall :=
  [.read, .write, .readv, .writev, .lseek, .close, .fstat, .statx, .ppoll, .mmap, .munmap, .mremap,
    .mprotect, .brk, .madvise, .futex, .rtSigreturn, .rtSigprocmask, .rtSigaction, .sigaltstack,
    .setRobustList, .rseq, .getpid, .gettid, .tgkill, .getrandom, .schedYield, .clockGettime,
    .clockNanosleep, .nanosleep, .restartSyscall, .prlimit64, .exit, .exitGroup] ++ archOnly arch

/-- The numbers the filter compares with: `*nr as u32`. -/
def numbers (sys : Libc) (arch : Arch) : List UInt32 :=
  (allowed arch).map fun call => UInt32.ofInt (sys call)

def program (sys : Libc) (arch : Arch) (audit : UInt32) : List Insn :=
  [⟨ldWAbs, 0, 0, archOffset⟩, ⟨jmpJeqK, 1, 0, audit⟩, ⟨retK, 0, 0, killProcess⟩,
    ⟨ldWAbs, 0, 0, nrOffset⟩] ++
  (numbers sys arch).flatMap (fun nr => [⟨jmpJeqK, 0, 1, nr⟩, ⟨retK, 0, 0, allow⟩]) ++
  [⟨retK, 0, 0, killProcess⟩]

def einval : Nat := 22

/-- What is added when both interfaces refuse the filter as invalid. -/
def hintText (first second : OsError) : Text :=
  if first.code = einval ∧ second.code = einval then
    "; EINVAL from both usually means this kernel has no CONFIG_SECCOMP_FILTER, ".toList ++
      "or the process is running under a userspace emulator that cannot pass a ".toList ++
      "filter through — a translated x86-64 container on an arm64 host, typically".toList
  else []

def rejectedText (first second : OsError) : Text :=
  "seccomp filter rejected: seccomp() said ".toList ++ first.text ++ ", prctl() said ".toList ++
    second.text ++ hintText first second

def seccomp (sys : Libc) (arch : Arch) (kernel : Kernel) : Except Text Unit :=
  match auditArch arch with
  | none => .error "no seccomp filter is defined for this architecture".toList
  | some audit =>
    if (program sys arch audit).length ≥ 2 ^ 16 then .error "filter too long".toList
    else
      match kernel.seccomp (program sys arch audit) with
      | .ok () => .ok ()
      | .error first =>
        match kernel.prctl (program sys arch audit) with
        | .ok () => .ok ()
        | .error second => .error (rejectedText first second)

def apply (sys : Libc) (arch : Arch) (kernel : Kernel) : Except Text Unit :=
  match kernel.noNewPrivs with
  | .error e => .error ("PR_SET_NO_NEW_PRIVS failed: ".toList ++ e.text)
  | .ok () => seccomp sys arch kernel

/-! ### The data of a call -/

/-- What the kernel gives a filter: `nr`, `arch`, the instruction pointer and six
    arguments, as sixteen words. -/
abbrev SeccompData := Fin 16 → UInt32

namespace SeccompData

def nr (data : SeccompData) : UInt32 := data 0

def arch (data : SeccompData) : UInt32 := data 1

/-- A word at an offset in bytes. -/
def word (data : SeccompData) (k : UInt32) : Option UInt32 :=
  if h : k.toNat / 4 < 16 then
    if k.toNat % 4 = 0 then some (data ⟨k.toNat / 4, h⟩) else none
  else none

theorem word_arch (data : SeccompData) : data.word archOffset = some data.arch := rfl

theorem word_nr (data : SeccompData) : data.word nrOffset = some data.nr := rfl

theorem loads (data : SeccompData) : Loads 64 data.word := by
  intro k haligned hinside
  have hindex : k.toNat / 4 < 16 := by omega
  rw [word, dif_pos hindex, if_pos haligned]
  exact ⟨_, rfl⟩

end SeccompData

/-! ### The filter -/

variable (sys : Libc) (arch : Arch) (audit : UInt32)

theorem program_eq : program sys arch audit =
    ⟨0x20, 0, 0, archOffset⟩ :: ⟨0x15, 1, 0, audit⟩ :: ⟨0x06, 0, 0, killProcess⟩ ::
      ⟨0x20, 0, 0, nrOffset⟩ ::
      (table allow (numbers sys arch) ++ [⟨0x06, 0, 0, killProcess⟩]) := rfl

theorem length_allowed : (allowed arch).length ≤ 35 := by
  cases arch <;> decide

theorem length_program :
    (program sys arch audit).length = 2 * (allowed arch).length + 5 := by
  have htable : (table allow (numbers sys arch)).length = 2 * (allowed arch).length := by
    rw [length_table, numbers, List.length_map]
  rw [program_eq]
  simp only [List.length_cons, List.length_append, List.length_nil, htable]

/-- What follows the comparison of the architecture. -/
theorem legal_tail :
    ∀ j tail, j :: tail <:+ table allow (numbers sys arch) ++ [⟨0x06, 0, 0, killProcess⟩] →
      Legal 64 j tail := by
  apply legal_table (by decide)
  intro j tail hsuffix
  rw [List.suffix_cons_iff] at hsuffix
  rcases hsuffix with hhead | hnil
  · obtain ⟨rfl, rfl⟩ := List.cons.inj hhead
    exact trivial
  · exact absurd (List.suffix_nil.mp hnil) (List.cons_ne_nil j tail)

theorem accepted_program : Accepted 64 (program sys arch audit) where
  short := by
    rw [length_program]
    have := length_allowed arch
    omega
  legal := by
    intro j tail hsuffix
    rw [program_eq] at hsuffix
    rcases List.suffix_cons_iff.mp hsuffix with hload | hsuffix
    · obtain ⟨rfl, rfl⟩ := List.cons.inj hload
      exact ⟨by decide, by decide⟩
    · rcases List.suffix_cons_iff.mp hsuffix with hjump | hsuffix
      · obtain ⟨rfl, rfl⟩ := List.cons.inj hjump
        show 1 < _ ∧ 0 < _
        simp only [List.length_cons]
        omega
      · rcases List.suffix_cons_iff.mp hsuffix with hkill | hsuffix
        · obtain ⟨rfl, rfl⟩ := List.cons.inj hkill
          exact trivial
        · rcases List.suffix_cons_iff.mp hsuffix with hload | hsuffix
          · obtain ⟨rfl, rfl⟩ := List.cons.inj hload
            exact ⟨by decide, by decide⟩
          · exact legal_tail sys arch j tail hsuffix
  ends := ⟨⟨retK, 0, 0, killProcess⟩, by rw [program, List.getLast?_concat], rfl⟩

/-- What the filter answers. -/
theorem exec_program (data : SeccompData) (a : UInt32) :
    exec data.word (program sys arch audit) 0 a =
      some (if data.arch = audit ∧ data.nr ∈ numbers sys arch then allow else killProcess) := by
  rw [program_eq, exec_load rfl, SeccompData.word_arch, Option.bind_some, exec_jumpEq rfl]
  by_cases harch : data.arch = audit
  · rw [if_pos harch]
    show exec data.word (⟨0x20, 0, 0, nrOffset⟩ :: _) 0 data.arch = _
    rw [exec_load rfl, SeccompData.word_nr, Option.bind_some, exec_table]
    by_cases hlisted : data.nr ∈ numbers sys arch
    · rw [if_pos hlisted, if_pos ⟨harch, hlisted⟩]
    · rw [if_neg hlisted, if_neg fun h => hlisted h.2]
      exact exec_ret rfl
  · rw [if_neg harch, if_neg fun h => harch h.1]
    show exec data.word (⟨0x06, 0, 0, killProcess⟩ :: _) 0 data.arch = _
    exact exec_ret rfl

/-! ### Applying it -/

variable {sys : Libc} {arch : Arch} {kernel : Kernel}

theorem seccomp_ok (h : seccomp sys arch kernel = .ok ()) :
    ∃ audit, auditArch arch = some audit ∧
      (kernel.seccomp (program sys arch audit) = .ok () ∨
        kernel.prctl (program sys arch audit) = .ok ()) := by
  unfold seccomp at h
  split at h
  · simp at h
  · rename_i audit haudit
    refine ⟨audit, haudit, ?_⟩
    split at h
    · simp at h
    · split at h
      · rename_i htook
        exact .inl htook
      · split at h
        · rename_i htook
          exact .inr htook
        · simp at h

/-- **The cage holds.** Where `apply` succeeds, the process can gain no privileges and the
    kernel took the filter. It is a filter kernels take, and of every call of the process
    it allows those whose number is on the list, made through the architecture that was
    compiled for; it kills at any other. -/
theorem confined_to_the_list (sys : Libc) (arch : Arch) (kernel : Kernel)
    (h : apply sys arch kernel = .ok ()) :
    kernel.noNewPrivs = .ok () ∧
      ∃ audit filter, auditArch arch = some audit ∧ Accepted 64 filter ∧
        (kernel.seccomp filter = .ok () ∨ kernel.prctl filter = .ok ()) ∧
        ∀ (data : SeccompData) (a : UInt32),
          (exec data.word filter 0 a = some allow ∨
            exec data.word filter 0 a = some killProcess) ∧
          (exec data.word filter 0 a = some allow ↔
            data.arch = audit ∧ ∃ call ∈ allowed arch, UInt32.ofInt (sys call) = data.nr) := by
  unfold apply at h
  split at h
  · simp at h
  · rename_i hprivs
    obtain ⟨audit, haudit, htook⟩ := seccomp_ok h
    refine ⟨hprivs, audit, program sys arch audit, haudit, accepted_program sys arch audit, htook,
      ?_⟩
    intro data a
    have hlisted : data.nr ∈ numbers sys arch ↔
        ∃ call ∈ allowed arch, UInt32.ofInt (sys call) = data.nr := List.mem_map
    rw [exec_program, ← hlisted]
    by_cases hpass : data.arch = audit ∧ data.nr ∈ numbers sys arch
    · simp [hpass]
    · simp [hpass, allow, killProcess]

/-- The numbers of x86-64. -/
def x86Numbers : Libc
  | .read => 0 | .write => 1 | .close => 3 | .fstat => 5 | .poll => 7 | .lseek => 8 | .mmap => 9
  | .mprotect => 10 | .munmap => 11 | .brk => 12 | .rtSigaction => 13 | .rtSigprocmask => 14
  | .rtSigreturn => 15 | .readv => 19 | .writev => 20 | .schedYield => 24 | .mremap => 25
  | .madvise => 28 | .nanosleep => 35 | .getpid => 39 | .exit => 60 | .sigaltstack => 131
  | .gettid => 186 | .futex => 202 | .restartSyscall => 219 | .clockGettime => 228
  | .clockNanosleep => 230 | .exitGroup => 231 | .tgkill => 234 | .ppoll => 271
  | .setRobustList => 273 | .prlimit64 => 302 | .getrandom => 318 | .statx => 332 | .rseq => 334

/-- A kernel behind a profile that refuses `seccomp` itself. -/
def behindProfile : Kernel where
  noNewPrivs := .ok ()
  seccomp _ := .error ⟨1, "Operation not permitted (os error 1)".toList⟩
  prctl _ := .ok ()

theorem confined_to_the_list_x86 :
    behindProfile.noNewPrivs = .ok () ∧
      ∃ audit filter, auditArch .x86_64 = some audit ∧ Accepted 64 filter ∧
        (behindProfile.seccomp filter = .ok () ∨ behindProfile.prctl filter = .ok ()) ∧
        ∀ (data : SeccompData) (a : UInt32),
          (exec data.word filter 0 a = some allow ∨
            exec data.word filter 0 a = some killProcess) ∧
          (exec data.word filter 0 a = some allow ↔
            data.arch = audit ∧
              ∃ call ∈ allowed .x86_64, UInt32.ofInt (x86Numbers call) = data.nr) :=
  confined_to_the_list x86Numbers .x86_64 behindProfile rfl

end AiDaemon.Confine
