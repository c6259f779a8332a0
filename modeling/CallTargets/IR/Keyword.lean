/-!
# Keywords

The words that mean something in IR text. Other words are no tokens.
-/
namespace CallTargets.IR

/-- The operators of instructions and of constant expressions. -/
def operatorKeywords : List String :=
  ["add", "addrspacecast", "alloca", "and", "ashr", "atomicrmw", "bitcast", "br", "call", "callbr",
   "catchpad", "catchret", "catchswitch", "cleanuppad", "cleanupret", "cmpxchg", "extractelement",
   "extractvalue", "fadd", "fcmp", "fdiv", "fence", "fmul", "fneg", "fpext", "fptosi", "fptoui",
   "fptrunc", "freeze", "frem", "fsub", "getelementptr", "icmp", "indirectbr", "insertelement",
   "insertvalue", "inttoptr", "invoke", "landingpad", "load", "lshr", "mul", "or", "phi",
   "ptrtoint", "resume", "ret", "sdiv", "select", "sext", "shl", "shufflevector", "sitofp", "srem",
   "store", "sub", "switch", "trunc", "udiv", "uitofp", "unreachable", "urem", "va_arg", "xor",
   "zext"]

/-- The words inside instructions: flags, predicates, orderings, connecting words. -/
def instructionKeywords : List String :=
  ["acq_rel", "acquire", "afn", "arcp", "asm", "atomic", "caller", "catch", "cleanup", "contract",
   "eq", "exact", "fast", "filter", "from", "inbounds", "inrange", "inteldialect", "max", "min",
   "monotonic", "musttail", "nand", "ne", "ninf", "nnan", "notail", "nsw", "nsz", "nuw", "oeq",
   "oge", "ogt", "ole", "olt", "one", "ord", "reassoc", "release", "seq_cst", "sge", "sgt",
   "sideeffect", "sle", "slt", "syncscope", "tail", "to", "ueq", "uge", "ugt", "ule", "ult",
   "umax", "umin", "une", "uno", "unordered", "unwind", "volatile", "within", "xchg"]

def valueKeywords : List String :=
  ["blockaddress", "c", "double", "dso_local_equivalent", "false", "float", "fp128", "half",
   "label", "metadata", "none", "null", "opaque", "poison", "ppc_fp128", "token", "true", "undef",
   "void", "vscale", "x", "x86_fp80", "x86_mmx", "zeroinitializer"]

/-- The words that begin or describe what a module consists of. -/
def topLevelKeywords : List String :=
  ["addrspace", "alias", "align", "any", "appending", "attributes", "available_externally",
   "comdat", "common", "constant", "datalayout", "declare", "default", "define", "distinct",
   "dllexport", "dllimport", "dso_local", "dso_preemptable", "exactmatch", "extern_weak",
   "external", "externally_initialized", "gc", "global", "hidden", "ifunc", "initialexec",
   "internal", "largest", "linkonce", "linkonce_odr", "local_unnamed_addr", "localdynamic",
   "localexec", "module", "nodeduplicate", "noduplicates", "partition", "personality", "prefix",
   "private", "prologue", "protected", "samesize", "section", "source_filename", "target",
   "thread_local", "triple", "type", "unnamed_addr", "uselistorder", "uselistorder_bb", "weak",
   "weak_odr"]

/-- The attributes of functions, parameters, arguments and results. -/
def attributeKeywords : List String :=
  ["alignstack", "allocsize", "alwaysinline", "argmemonly", "builtin", "byref", "byval", "cold",
   "convergent", "dereferenceable", "dereferenceable_or_null", "disable_sanitizer_instrumentation",
   "elementtype", "hot", "immarg", "inaccessiblemem_or_argmemonly", "inaccessiblememonly",
   "inalloca", "inlinehint", "inreg", "jumptable", "minsize", "mustprogress", "naked", "nest",
   "noalias", "nobuiltin", "nocallback", "nocapture", "nocf_check", "noduplicate", "nofree",
   "noimplicitfloat", "noinline", "nomerge", "nonlazybind", "nonnull", "noprofile", "norecurse",
   "noredzone", "noreturn", "nosanitize_coverage", "nosync", "noundef", "nounwind",
   "null_pointer_is_valid", "optforfuzzing", "optnone", "optsize", "preallocated", "readnone",
   "readonly", "returned", "returns_twice", "safestack", "sanitize_address", "sanitize_hwaddress",
   "sanitize_memory", "sanitize_memtag", "sanitize_thread", "shadowcallstack", "signext",
   "speculatable", "speculative_load_hardening", "sret", "ssp", "sspreq", "sspstrong", "strictfp",
   "swiftasync", "swifterror", "swiftself", "uwtable", "vscale_range", "willreturn", "writeonly",
   "zeroext"]

def conventionKeywords : List String :=
  ["aarch64_sve_vector_pcs", "aarch64_vector_pcs", "amdgpu_cs", "amdgpu_es", "amdgpu_gfx",
   "amdgpu_gs", "amdgpu_hs", "amdgpu_kernel", "amdgpu_ls", "amdgpu_ps", "amdgpu_vs", "anyregcc",
   "arm_aapcs_vfpcc", "arm_aapcscc", "arm_apcscc", "avr_intrcc", "avr_signalcc", "cc", "ccc",
   "cfguard_checkcc", "coldcc", "cxx_fast_tlscc", "fastcc", "ghccc", "hhvm_ccc", "hhvmcc",
   "intel_ocl_bicc", "msp430_intrcc", "preserve_allcc", "preserve_mostcc", "ptx_device",
   "ptx_kernel", "spir_func", "spir_kernel", "swiftcc", "swifttailcc", "tailcc", "webkit_jscc",
   "win64cc", "x86_64_sysvcc", "x86_fastcallcc", "x86_intrcc", "x86_regcallcc", "x86_stdcallcc",
   "x86_thiscallcc", "x86_vectorcallcc"]

def metadataKeywords : List String :=
  ["CSK_MD5", "CSK_SHA1", "CSK_SHA256", "DebugDirectivesOnly", "Default", "FullDebug", "GNU",
   "LineTablesOnly", "NoDebug", "None"]

def keywords : List String :=
  operatorKeywords ++ instructionKeywords ++ valueKeywords ++ topLevelKeywords ++
    attributeKeywords ++ conventionKeywords ++ metadataKeywords

/-- The beginnings of the names that constants of the debug format have. -/
def debugConstantStarts : List String :=
  ["DW_ATE_", "DW_CC_", "DW_LANG_", "DW_MACINFO_", "DW_OP_", "DW_TAG_", "DW_VIRTUALITY_", "DIFlag",
   "DISPFlag"]

/-- Whether a word is an integer type, `i` and its width. -/
def isIntegerType (cs : List Char) : Bool :=
  match cs with
  | 'i' :: d :: ds => (d :: ds).all Char.isDigit
  | _ => false

/-- Whether a run of identifier characters is a word that means something. -/
def isKeyword (cs : List Char) : Bool :=
  let word := String.ofList cs
  isIntegerType cs || keywords.contains word ||
    debugConstantStarts.any fun start =>
      start.toList.isPrefixOf cs && start.length < cs.length

end CallTargets.IR
