import TunnelPublishers.ByteOrder
import TunnelPublishers.PosixRegex

/-!
# Where a publisher connects to

`open_socket` reads the configuration of the hotline: the path of a local socket, or a
host and a port told apart by a regular expression. In the brackets of the
expression a backslash is a member like any other, so its hyphen joins the ends
of a range.
-/
namespace SocketPaths

open ByteOrder PosixRegex

def MAX_PATH_LEN : ℕ := 108

/-- Whether the text matches, with the first `msize` groups. An expression that does not compile
matches nothing; the only one in use does compile (`regcomp_tcpExpr`). -/
def regexMatch (expr search : List UInt8) (msize : ℕ) : Option (List (Option Regmatch)) :=
  (regcomp expr).bind fun regex =>
    (regexec true regex search).map fun found => (List.range msize).map found.span

def tcpExpr : List UInt8 := text "^([a-zA-Z0-9\\-_\\.]+):([0-9]+)$"

/-- The branch `open_socket` takes, and the texts it takes out of the path. -/
inductive Branch where
  | unixDomain (name : List UInt8)
  | tcp (host digits : List UInt8)
  | unknown
  deriving DecidableEq

def branch (path : List UInt8) : Branch :=
  if text "unix:" <+: path then .unixDomain (path.drop 5)
  else
    match regexMatch tcpExpr path 3 with
    | some [_, some host, some digits] => .tcp (host.slice path) (digits.slice path)
    | _ => .unknown

/-- `char address[MAX_PATH_LEN]`, with what the stack holds there. -/
structure AddressBuffer where
  bytes : List UInt8
  size : bytes.length = MAX_PATH_LEN

/-- What `open_socket` comes to, before the calls of the kernel. -/
inductive Opening where
  | unknown
  | tooLong
  /-- The path in the address of a local socket. -/
  | unixDomain (sunPath : List UInt8)
  /-- A copy writes behind the buffer. -/
  | overrun
  /-- `atoi` leaves the buffer, or the number is no `int`. -/
  | unconverted
  /-- The address, the port and its 16 bits in network order. -/
  | tcp (address : List UInt8) (port : ℤ) (sinPort : UInt16)
  deriving DecidableEq

/-- `memcpy` to the start of an array, if the bytes fit. -/
def copyInto (array src : List UInt8) : Option (List UInt8) :=
  if src.length ≤ array.length then some (memcpyAt array 0 src) else none

def openUnixSocket (path : List UInt8) : Opening := .unixDomain (strncpy path MAX_PATH_LEN)

def openTcpSocket (address : List UInt8) (port : ℤ) : Opening :=
  .tcp (cString address) port (htons (UInt16.ofInt port))

/-- The digits go through the address buffer first, then the host takes their place. -/
def openTcp (address : AddressBuffer) (host digits : List UInt8) : Opening :=
  match copyInto address.bytes digits with
  | none => .overrun
  | some number =>
    match atoi number with
    | none => .unconverted
    | some port =>
      match copyInto (List.replicate MAX_PATH_LEN 0) host with
      | none => .overrun
      | some address => openTcpSocket address port

def openSocket (address : AddressBuffer) (path : List UInt8) : Opening :=
  match branch path with
  | .unixDomain name => if name.length > MAX_PATH_LEN - 1 then .tooLong else openUnixSocket name
  | .tcp host digits =>
    if host.length > MAX_PATH_LEN - 1 then .tooLong else openTcp address host digits
  | .unknown => .unknown

/-! ### The grammar of the pattern -/

def colon : UInt8 := 0x3a
def hyphen : UInt8 := 0x2d

def isLetter (b : UInt8) : Bool := 65 ≤ b && b ≤ 90 || 97 ≤ b && b ≤ 122

/-- Letters, digits, hyphen, underscore and dot. -/
def isHostByte (b : UInt8) : Bool := isLetter b || isDigit b || b ∈ text "-_."

/-- What lies between the backslash and the underscore. -/
def isStray (b : UInt8) : Bool := b ∈ text "\\]^"

/-- A host over some bytes, a colon and a number. -/
structure Spells (letter : UInt8 → Bool) (path host digits : List UInt8) : Prop where
  path : path = host ++ colon :: digits
  host_ne : host ≠ []
  host_bytes : ∀ b ∈ host, letter b
  digits_ne : digits ≠ []
  digits_bytes : ∀ b ∈ digits, isDigit b

def hostSet : List Member :=
  [.range 0x61 0x7a, .range 0x41 0x5a, .range 0x30 0x39, .range 0x5c 0x5f, .single 0x5c,
    .single 0x2e]

def digitSet : List Member := [.range 0x30 0x39]

def tcpRegex : Regex :=
  .seq .bol (.seq (.group 1 (.seq (.repeated 1 hostSet) .empty)) (.seq (.one [.single colon])
    (.seq (.group 2 (.seq (.repeated 1 digitSet) .empty)) (.seq .eol .empty))))

theorem regcomp_tcpExpr : regcomp tcpExpr = some tcpRegex := by decide

/-- The members of the brackets, whatever the case. -/
def isMember (b : UInt8) : Bool := isHostByte b && b != hyphen || isStray b

theorem accepts_hostSet (b : UInt8) : accepts true hostSet b = isMember b := by
  have hmarks : text "-_." = [0x2d, 0x5f, 0x2e] := rfl
  have hstray : text "\\]^" = [0x5c, 0x5d, 0x5e] := rfl
  rw [Bool.eq_iff_iff]
  simp only [accepts, hostSet, List.any_cons, List.any_nil, Member.has, counterpart, isDigit,
    isHostByte, isLetter, isStray, isMember, hyphen, hmarks, hstray, Bool.or_false,
    Bool.or_eq_true, Bool.and_eq_true, decide_eq_true_eq, beq_iff_eq, bne_iff_ne, Bool.true_and,
    List.mem_cons, List.not_mem_nil, or_false]
  grind

theorem accepts_digitSet (b : UInt8) : accepts true digitSet b = isDigit b := by
  rw [Bool.eq_iff_iff]
  simp only [accepts, digitSet, List.any_cons, List.any_nil, Member.has, counterpart, isDigit,
    Bool.or_false, Bool.or_eq_true, Bool.and_eq_true, decide_eq_true_eq, Bool.true_and]
  grind

theorem accepts_colon (b : UInt8) : accepts true [.single colon] b ↔ b = colon := by
  simp only [accepts, List.any_cons, List.any_nil, Member.has, counterpart, colon,
    Bool.or_false, Bool.or_eq_true, Bool.true_and, beq_iff_eq]
  grind

/-- The groups of a match: the host, and all behind the colon. -/
def groupsOf (host path : List UInt8) : List (ℕ × Regmatch) :=
  [(1, ⟨0, host.length⟩), (2, ⟨host.length + 1, path.length⟩)]

section Grammar

variable {letter : UInt8 → Bool} {path host digits : List UInt8}

/-- A host, a colon and digits stand one after the other, up to the end. -/
theorem pieces_iff : path = host ++ colon :: digits ↔
    host <+: path.drop 0 ∧ [colon] <+: path.drop (0 + host.length) ∧
      digits <+: path.drop (0 + host.length + 1) ∧
      0 + host.length + 1 + digits.length = path.length := by
  have hlen : (host ++ [colon]).length = host.length + 1 := List.length_append
  constructor
  · intro hpath
    have hwhole : host ++ [colon] ++ digits <+: path.drop 0 := by
      rw [hpath, List.append_assoc]
      exact List.prefix_rfl
    have hjoin := (List.prefix_append _ _).trans hwhole
    have hhost := (List.prefix_append _ _).trans hjoin
    have hdigits := (prefix_drop_append hjoin).mpr hwhole
    rw [hlen, ← Nat.add_assoc] at hdigits
    refine ⟨hhost, (prefix_drop_append hhost).mpr hjoin, hdigits, ?_⟩
    rw [hpath, List.length_append, List.length_cons]
    omega
  · rintro ⟨hhost, hcolon, hdigits, hend⟩
    have hjoin := (prefix_drop_append hhost).mp hcolon
    rw [Nat.add_assoc, ← hlen] at hdigits
    have hwhole := (prefix_drop_append hjoin).mp hdigits
    rw [List.drop_zero, List.append_assoc] at hwhole
    refine (hwhole.eq_of_length ?_).symm
    rw [← hend, List.length_append, List.length_append, List.length_singleton]
    omega

/-- What a match of the pattern says. -/
theorem spells_of_mem_ends {i j : ℕ} {gs : List (ℕ × Regmatch)}
    (h : (j, gs) ∈ ends true path tcpRegex i) :
    i = 0 ∧ j = path.length ∧
      ∃ host digits, Spells isMember path host digits ∧ gs = groupsOf host path := by
  obtain ⟨_, _, hbol, _, h₁, rfl⟩ := mem_ends_seq.mp h
  obtain ⟨rfl, rfl, rfl⟩ := mem_ends_bol.mp hbol
  obtain ⟨_, _, hgroup, _, h₂, rfl⟩ := mem_ends_seq.mp h₁
  obtain ⟨host, hhost, hhne, hhall, rfl, rfl⟩ := mem_ends_run.mp hgroup
  obtain ⟨_, _, hone, _, h₃, rfl⟩ := mem_ends_seq.mp h₂
  obtain ⟨b, hcolon, hb, rfl, rfl⟩ := mem_ends_one.mp hone
  obtain rfl := (accepts_colon b).mp hb
  obtain ⟨_, _, hport, _, h₄, rfl⟩ := mem_ends_seq.mp h₃
  obtain ⟨digits, hdigits, hdne, hdall, rfl, rfl⟩ := mem_ends_run.mp hport
  obtain ⟨_, _, heol, _, h₅, rfl⟩ := mem_ends_seq.mp h₄
  obtain ⟨hend, rfl, rfl⟩ := mem_ends_eol.mp heol
  obtain ⟨rfl, rfl⟩ := mem_ends_empty.mp h₅
  have hpath := pieces_iff.mpr ⟨hhost, hcolon, hdigits, hend⟩
  simp only [accepts_hostSet] at hhall
  simp only [accepts_digitSet] at hdall
  refine ⟨rfl, hend, host, digits, ⟨hpath, hhne, hhall, hdne, hdall⟩, ?_⟩
  simp only [groupsOf, ← hend, Nat.zero_add, List.nil_append, List.append_nil, List.cons_append]

theorem Spells.mem_ends (h : Spells isMember path host digits) :
    (path.length, groupsOf host path) ∈ ends true path tcpRegex 0 := by
  obtain ⟨hhost, hcolon, hdigits, hend⟩ := pieces_iff.mp h.path
  have hhall := h.host_bytes
  have hdall := h.digits_bytes
  simp only [← accepts_hostSet] at hhall
  simp only [← accepts_digitSet] at hdall
  have hbol : (0, []) ∈ ends true path .bol 0 := mem_ends_bol.mpr ⟨rfl, rfl, rfl⟩
  have hgroup := mem_ends_run (n := 1).mpr ⟨host, hhost, h.host_ne, hhall, rfl, rfl⟩
  have hone := mem_ends_one.mpr ⟨colon, hcolon, (accepts_colon _).mpr rfl, rfl, rfl⟩
  have hport := mem_ends_run (n := 2).mpr ⟨digits, hdigits, h.digits_ne, hdall, rfl, rfl⟩
  have hempty : (path.length, []) ∈ ends true path .empty path.length :=
    mem_ends_empty.mpr ⟨rfl, rfl⟩
  have heol := mem_ends_seq.mpr ⟨_, [], mem_ends_eol.mpr ⟨hend, hend.symm, rfl⟩, [], hempty, rfl⟩
  refine mem_ends_seq.mpr ⟨_, [], hbol, _, mem_ends_seq.mpr ⟨_, _, hgroup, _,
    mem_ends_seq.mpr ⟨_, _, hone, _, mem_ends_seq.mpr ⟨_, _, hport, _, heol, rfl⟩, rfl⟩, rfl⟩, ?_⟩
  simp only [groupsOf, ← hend, Nat.zero_add, List.nil_append, List.append_nil, List.cons_append]

theorem Spells.unique (hcolon : letter colon = false) (h : Spells letter path host digits)
    {host' digits' : List UInt8} (h' : Spells letter path host' digits') :
    host = host' ∧ digits = digits' := by
  have hhost : colon ∉ host := by
    intro hmem
    rw [h.host_bytes _ hmem] at hcolon
    exact Bool.noConfusion hcolon
  have hdigits : colon ∉ digits := fun hmem => absurd (h.digits_bytes _ hmem) (by decide)
  have heq := h.path.symm.trans h'.path
  rw [List.append_cons_inj_of_notMem hhost hdigits] at heq
  exact ⟨heq.1, heq.2.2⟩

theorem Spells.slices (h : Spells letter path host digits) :
    (⟨0, host.length⟩ : Regmatch).slice path = host ∧
      (⟨host.length + 1, path.length⟩ : Regmatch).slice path = digits := by
  have hdrop : path.drop (host.length + 1) = digits := by
    rw [h.path, ← List.drop_drop, List.drop_left, List.drop_one, List.tail_cons]
  constructor
  · rw [Regmatch.slice, h.path, List.drop_zero, Nat.sub_zero, List.take_left]
  · rw [Regmatch.slice, hdrop, List.take_of_length_le]
    rw [← hdrop, List.length_drop]

theorem regexec_tcpRegex {m : Found} (h : regexec true tcpRegex path = some m) :
    ∃ host digits, Spells isMember path host digits ∧
      m = ⟨⟨0, path.length⟩, groupsOf host path⟩ := by
  obtain ⟨⟨so, eo⟩, groups⟩ := m
  obtain ⟨rfl, rfl, host, digits, hs, rfl⟩ := spells_of_mem_ends (regexec_some h)
  exact ⟨host, digits, hs, rfl⟩

theorem Spells.branch (hunix : ¬ text "unix:" <+: path) (h : Spells isMember path host digits) :
    branch path = .tcp host digits := by
  obtain ⟨m, hm⟩ := regexec_of_mem (Nat.zero_le _) h.mem_ends
  obtain ⟨host', digits', h', rfl⟩ := regexec_tcpRegex hm
  obtain ⟨rfl, rfl⟩ := h.unique (by decide) h'
  have hmatch : regexMatch tcpExpr path 3 =
      some [some ⟨0, path.length⟩, some ⟨0, host.length⟩, some ⟨host.length + 1, path.length⟩] := by
    rw [regexMatch, regcomp_tcpExpr, Option.bind_some, hm]
    rfl
  obtain ⟨hhost, hdigits⟩ := h.slices
  rw [SocketPaths.branch, if_neg hunix, hmatch]
  simp only [hhost, hdigits]

/-- The TCP branch is taken for what is spelled over the members of the brackets. -/
theorem branch_tcp_iff (hunix : ¬ text "unix:" <+: path) :
    branch path = .tcp host digits ↔ Spells isMember path host digits := by
  constructor
  · intro h
    cases hm : regexec true tcpRegex path with
    | none =>
      rw [branch, if_neg hunix, regexMatch, regcomp_tcpExpr, Option.bind_some, hm] at h
      exact Branch.noConfusion h
    | some m =>
      obtain ⟨host', digits', hs, -⟩ := regexec_tcpRegex hm
      obtain ⟨rfl, rfl⟩ := Branch.tcp.inj (h.symm.trans (hs.branch hunix))
      exact hs
  · exact fun h => h.branch hunix

theorem spells_of_branch (h : branch path = .tcp host digits) :
    Spells isMember path host digits := by
  have hunix : ¬ text "unix:" <+: path := by
    intro hunix
    rw [branch, if_pos hunix] at h
    exact Branch.noConfusion h
  exact (branch_tcp_iff hunix).mp h

end Grammar

/-- A host with a hyphen is refused, and one without that has a byte between the backslash and
the underscore is accepted. -/
def Misread (path : List UInt8) : Prop :=
  ∃ host digits, Spells isHostByte path host digits ∧ hyphen ∈ host ∨
    Spells isMember path host digits ∧ ∃ b ∈ host, isStray b

theorem not_isMember_hyphen : isMember hyphen = false := by decide

theorem not_isHostByte_stray {b : UInt8} (h : isStray b) : isHostByte b = false := by
  have hstray : text "\\]^" = [0x5c, 0x5d, 0x5e] := rfl
  simp only [isStray, hstray, decide_eq_true_eq, List.mem_cons, List.not_mem_nil, or_false] at h
  rcases h with rfl | rfl | rfl <;> decide

theorem Spells.host_mem {letter : UInt8 → Bool} {path host digits : List UInt8} {b : UInt8}
    (h : Spells letter path host digits) (hb : b ∈ host) : b ∈ path := by
  rw [h.path]
  exact List.mem_append_left _ hb

/-- The branch follows the intended grammar on exactly the paths that are not misread. -/
theorem tcp_branch_intended_iff {path : List UInt8} (hunix : ¬ text "unix:" <+: path) :
    (∀ host digits, branch path = .tcp host digits ↔ Spells isHostByte path host digits) ↔
      ¬ Misread path := by
  simp only [branch_tcp_iff hunix]
  constructor
  · rintro hsame ⟨host, digits, ⟨hs, hhyphen⟩ | ⟨hs, b, hb, hstray⟩⟩
    · have hmember := ((hsame host digits).mpr hs).host_bytes _ hhyphen
      rw [not_isMember_hyphen] at hmember
      exact Bool.noConfusion hmember
    · have hbyte := ((hsame host digits).mp hs).host_bytes b hb
      rw [not_isHostByte_stray hstray] at hbyte
      exact Bool.noConfusion hbyte
  · intro hnone host digits
    constructor
    · intro hs
      refine { hs with host_bytes := ?_ }
      intro b hb
      have hmember := hs.host_bytes b hb
      simp only [isMember, Bool.or_eq_true, Bool.and_eq_true] at hmember
      rcases hmember with ⟨hbyte, -⟩ | hstray
      · exact hbyte
      · exact absurd ⟨host, digits, Or.inr ⟨hs, b, hb, hstray⟩⟩ hnone
    · intro hs
      refine { hs with host_bytes := ?_ }
      intro b hb
      have hne : b ≠ hyphen := by
        rintro rfl
        exact hnone ⟨host, digits, Or.inl ⟨hs, hb⟩⟩
      simp [isMember, hs.host_bytes b hb, hne]

/-- No byte of `localhost:80` can be misread, and so the branch takes it apart as intended. -/
theorem tcp_branch_intended_localhost :
    ¬ Misread (text "localhost:80") ∧
      branch (text "localhost:80") = .tcp (text "localhost") (text "80") := by
  have hplain : ∀ b ∈ text "localhost:80", b ≠ hyphen ∧ ¬ isStray b := by decide +kernel
  have hread : ¬ Misread (text "localhost:80") := by
    rintro ⟨host, digits, ⟨hs, hhyphen⟩ | ⟨hs, b, hb, hstray⟩⟩
    · exact (hplain _ (hs.host_mem hhyphen)).1 rfl
    · exact (hplain _ (hs.host_mem hb)).2 hstray
  have hspelled : Spells isHostByte (text "localhost:80") (text "localhost") (text "80") :=
    ⟨rfl, by decide, List.all_eq_true.mp rfl, by decide, List.all_eq_true.mp rfl⟩
  exact ⟨hread, ((tcp_branch_intended_iff (by decide)).mpr hread _ _).mpr hspelled⟩

/-- A host with a hyphen is refused, one with a backslash is accepted. -/
theorem tcp_branch_misreads :
    (branch (text "my-host:80") = .unknown ∧
      Spells isHostByte (text "my-host:80") (text "my-host") (text "80")) ∧
    branch (text "my\\host:80") = .tcp (text "my\\host") (text "80") ∧
    ¬ ∀ path, ¬ text "unix:" <+: path → ∀ host digits,
      branch path = .tcp host digits ↔ Spells isHostByte path host digits := by
  have hrefused : branch (text "my-host:80") = .unknown := by decide
  have hspelled : Spells isHostByte (text "my-host:80") (text "my-host") (text "80") :=
    ⟨rfl, by decide, List.all_eq_true.mp rfl, by decide, List.all_eq_true.mp rfl⟩
  refine ⟨⟨hrefused, hspelled⟩, by decide, ?_⟩
  intro hall
  have htaken := (hall _ (by decide) _ _).mpr hspelled
  rw [hrefused] at htaken
  exact Branch.noConfusion htaken

/-! ### The port -/

/-- The digits that stand in the buffer behind those copied into it. -/
def leftover (address : AddressBuffer) (digits : List UInt8) : List UInt8 :=
  (address.bytes.drop digits.length).takeWhile isDigit

/-- The host and the port of a connection are these, the port in network order too. -/
def Connects (o : Opening) (host : List UInt8) (port : ℕ) : Prop :=
  ∃ sinPort, o = .tcp host port sinPort ∧ (ntohs sinPort).toNat = port

theorem copyInto_isSome {array src : List UInt8} (h : src.length ≤ array.length) :
    copyInto array src = some (src ++ array.drop src.length) := by
  rw [copyInto, if_pos h, memcpyAt_zero]

/-- What is cut to 16 bits and sent in network order is the port if it fits. -/
theorem ntohs_port (port : ℕ) :
    (ntohs (htons (UInt16.ofInt port))).toNat = port ↔ port < 2 ^ 16 := by
  have hround : ntohs (htons (UInt16.ofInt port)) = UInt16.ofInt port :=
    ntohs_word16_be16 (UInt16.ofInt port)
  rw [hround, UInt16.ofInt, UInt16.toNat_ofNat']
  omega

theorem openTcpSocket_connects {host : List UInt8} (hnone : (0 : UInt8) ∉ host)
    (zeros port : ℕ) (value : ℤ) :
    Connects (openTcpSocket (host ++ List.replicate zeros 0) value) host port ↔
      value = port ∧ port < 2 ^ 16 := by
  have haddress : cString (host ++ List.replicate zeros 0) = host := by
    rw [cString_append hnone]
    cases zeros <;> simp [cString, List.replicate_succ]
  simp only [Connects, openTcpSocket, haddress, Opening.tcp.injEq, true_and]
  constructor
  · rintro ⟨_, ⟨rfl, rfl⟩, hport⟩
    exact ⟨rfl, (ntohs_port port).mp hport⟩
  · rintro ⟨rfl, hlt⟩
    exact ⟨_, ⟨rfl, rfl⟩, (ntohs_port port).mpr hlt⟩

/-- The port is what `atoi` makes of the digits and of the buffer behind them. -/
theorem openTcp_connects (address : AddressBuffer) {host digits : List UInt8}
    (hnone : (0 : UInt8) ∉ host) (hlen : host.length ≤ MAX_PATH_LEN) (port : ℕ) :
    Connects (openTcp address host digits) host port ↔
      digits.length ≤ MAX_PATH_LEN ∧
        atoi (digits ++ address.bytes.drop digits.length) = some (port : ℤ) ∧ port < 2 ^ 16 := by
  have hhost : copyInto (List.replicate MAX_PATH_LEN 0) host =
      some (host ++ List.replicate (MAX_PATH_LEN - host.length) 0) := by
    rw [copyInto_isSome (hlen.trans_eq List.length_replicate.symm), List.drop_replicate]
  by_cases hfits : digits.length ≤ MAX_PATH_LEN
  · have hdigits := copyInto_isSome (hfits.trans_eq address.size.symm)
    cases hatoi : atoi (digits ++ address.bytes.drop digits.length) with
    | none => simp [openTcp, hdigits, hatoi, Connects]
    | some value =>
      simp only [openTcp, hdigits, hatoi, hhost, openTcpSocket_connects hnone, hfits, true_and,
        Option.some.injEq]
  · have hdigits : copyInto address.bytes digits = none := by
      rw [copyInto, address.size, if_neg hfits]
    simp [openTcp, hdigits, Connects, hfits]

/-- The port of the configuration is the one connected to exactly when its digits end inside the
buffer, are a port, and the buffer does not add digits of its own to them. -/
theorem tcp_port_iff (address : AddressBuffer) {path host digits : List UInt8}
    (htcp : branch path = .tcp host digits) (hlen : openSocket address path ≠ .tooLong) :
    Connects (openSocket address path) host (decimal digits) ↔
      digits.length + (leftover address digits).length < MAX_PATH_LEN ∧
        decimal digits < 2 ^ 16 ∧
        (leftover address digits = [] ∨
          decimal digits = 0 ∧ decimal (leftover address digits) = 0) := by
  have hs := spells_of_branch htcp
  have hnone : (0 : UInt8) ∉ host := fun hmem => absurd (hs.host_bytes _ hmem) (by decide)
  have hshort : host.length ≤ MAX_PATH_LEN - 1 := by
    by_contra hlong
    rw [openSocket, htcp] at hlen
    exact hlen (if_pos (Nat.lt_of_not_le hlong))
  have hopen : openSocket address path = openTcp address host digits := by
    rw [openSocket, htcp]
    exact if_neg (Nat.not_lt_of_le hshort)
  have hrest : (address.bytes.drop digits.length).length = MAX_PATH_LEN - digits.length := by
    rw [List.length_drop, address.size]
  rw [hopen, openTcp_connects address hnone (hshort.trans (Nat.sub_le _ _)),
    atoi_digits hs.digits_ne hs.digits_bytes, decimal_append_eq, hrest, leftover]
  constructor
  · rintro ⟨hfits, ⟨hend, -, hvalue⟩, hport⟩
    exact ⟨by omega, hport, hvalue⟩
  · rintro ⟨hend, hport, hvalue⟩
    exact ⟨by omega, ⟨by omega, by omega, hvalue⟩, hport⟩

theorem cleared_size : (List.replicate 108 (0 : UInt8)).length = MAX_PATH_LEN :=
  List.length_replicate

theorem oneDigit_size :
    (0 :: 0 :: 0x39 :: List.replicate 105 (0 : UInt8)).length = MAX_PATH_LEN := rfl

/-- A buffer of zeros, and one that holds the digit 9 at its third place. -/
def cleared : AddressBuffer := ⟨List.replicate 108 0, cleared_size⟩
def oneDigit : AddressBuffer := ⟨0 :: 0 :: 0x39 :: List.replicate 105 0, oneDigit_size⟩

theorem tcp_port_cleared :
    branch (text "localhost:80") = .tcp (text "localhost") (text "80") ∧
      openSocket cleared (text "localhost:80") ≠ .tooLong ∧
      Connects (openSocket cleared (text "localhost:80")) (text "localhost") 80 := by
  have htcp : branch (text "localhost:80") = .tcp (text "localhost") (text "80") := by decide
  have hlen : openSocket cleared (text "localhost:80") ≠ .tooLong := by decide
  exact ⟨htcp, hlen, (tcp_port_iff cleared htcp hlen).mpr (by decide)⟩

/-- A port of 109 digits. -/
theorem branch_longPort :
    branch (0x68 :: colon :: List.replicate 109 0x31) = .tcp [0x68] (List.replicate 109 0x31) := by
  have hdigits : ∀ b ∈ List.replicate 109 (0x31 : UInt8), isDigit b := by
    intro b hb
    rw [List.eq_of_mem_replicate hb]
    rfl
  apply Spells.branch
  · exact fun hunix => absurd (List.cons_prefix_cons.mp hunix).1 (by decide)
  · exact ⟨rfl, by decide, List.all_eq_true.mp rfl, by decide, hdigits⟩

/-- The port 80 becomes 809, the port 70000 becomes 4464 in the address, and 109 digits are
copied into 108 bytes. -/
theorem tcp_port_lost :
    openSocket oneDigit (text "localhost:80") = .tcp (text "localhost") 809 (htons 809) ∧
    openSocket cleared (text "localhost:70000") = .tcp (text "localhost") 70000 (htons 4464) ∧
    openSocket cleared (0x68 :: colon :: List.replicate 109 0x31) = .overrun ∧
    ¬ ∀ address path host digits, branch path = .tcp host digits →
      openSocket address path ≠ .tooLong →
      Connects (openSocket address path) host (decimal digits) := by
  have hleft : openSocket oneDigit (text "localhost:80") =
      .tcp (text "localhost") 809 (htons 809) := by decide
  have hlong : openSocket cleared (0x68 :: colon :: List.replicate 109 0x31) = .overrun := by
    rw [openSocket, branch_longPort]
    rfl
  refine ⟨hleft, by decide, hlong, ?_⟩
  intro hall
  obtain ⟨sinPort, hopen, -⟩ := hall oneDigit (text "localhost:80") (text "localhost") (text "80")
    (by decide) (by decide)
  rw [hleft] at hopen
  exact absurd (Opening.tcp.inj hopen).2.1 (by decide)

end SocketPaths
