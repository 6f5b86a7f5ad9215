import ContractAudit.Table

/-! # Names of the language -/

namespace ContractAudit.Builtin

/-- Variables of the language. Those with members have no type. -/
def vars : Table String String :=
  [("now", "uint256"), ("this", "address"), ("self", "address"), ("abi", "address"), ("msg", ""),
    ("tx", ""), ("block", ""), ("super", ""), ("chain", ""), ("ZERO_ADDRESS", "address")]

def members : Table String String :=
  ["block.basefee", "block.blobbasefee", "block.difficulty", "block.prevrandao", "block.gaslimit", "block.number",
    "block.timestamp", "block.chainid", "msg.gas", "msg.value", "tx.gasprice", "chain.id", "self.balance"].map (·, "uint256") ++
  [("block.coinbase", "address"), ("block.blockhash", "bytes32"), ("msg.data", "bytes"), ("msg.sender", "address"),
    ("msg.sig", "bytes4"), ("tx.origin", "address"), ("block.prevhash", "bytes32")]

def sourceFunctions : Table String (List String) :=
  ["gasleft()", "this.balance()", "balance(address)", "len()"].map (·, ["uint256"]) ++
  ["assert(bool)", "require(bool)", "require(bool,string)", "require(bool,error)", "revert()", "revert(string)", "revert ",
    "selfdestruct(address)", "suicide(address)", "log0(bytes32)", "log1(bytes32,bytes32)", "log2(bytes32,bytes32,bytes32)",
    "log3(bytes32,bytes32,bytes32,bytes32)", "abi.decode()", "type(address)", "type()", "create_from_blueprint()",
    "create_minimal_proxy_to()", "empty()", "convert()", "method_id()", "unsafe_sub()", "unsafe_add()", "unsafe_div()",
    "unsafe_mul()", "pow_mod256()", "max_value()", "min_value()", "concat()", "ecrecover()", "isqrt()", "range()", "min()",
    "max()", "shift()", "abs()", "_abi_encode()", "slice()", "send()"].map (·, []) ++
  ["keccak256()", "keccak256(bytes)", "sha256()", "sha256(bytes)", "sha3()", "ripemd160()", "ripemd160(bytes)",
    "codehash(address)"].map (·, ["bytes32"]) ++
  ["abi.encode()", "abi.encodePacked()", "abi.encodeWithSelector()", "abi.encodeWithSignature()", "abi.encodeCall()",
    "bytes.concat()", "code(address)"].map (·, ["bytes"]) ++
  [("ecrecover(bytes32,uint8,bytes32,bytes32)", ["address"]), ("string.concat()", ["string"]), ("uint2str()", ["string"]),
    ("raw_call()", ["bool", "bytes32"])]

def instructions : List (String × Nat × Nat) :=
  ["byte", "signextend", "keccak256"].map (·, 2, 1) ++
  ["addmod", "mulmod", "create"].map (·, 3, 1) ++
  ["pc", "gas", "address", "selfbalance", "basefee", "blobbasefee", "caller", "callvalue", "calldatasize", "codesize",
    "returndatasize", "chainid", "origin", "gasprice", "coinbase", "timestamp", "number", "difficulty", "prevrandao",
    "gaslimit"].map (·, 0, 1) ++
  ["pop", "selfdestruct"].map (·, 1, 0) ++
  ["mload", "sload", "tload", "msize", "balance", "blobhash", "calldataload", "extcodesize", "extcodehash", "blockhash"].map (·, 1, 1) ++
  ["mstore", "mstore8", "sstore", "tstore", "return", "revert", "log0"].map (·, 2, 0) ++
  ["calldatacopy", "codecopy", "returndatacopy", "mcopy", "log1"].map (·, 3, 0) ++
  ["extcodecopy", "log2"].map (·, 4, 0) ++
  ["call", "callcode"].map (·, 7, 1) ++
  ["delegatecall", "staticcall"].map (·, 6, 1) ++
  [("create2", 4, 1), ("invalid", 0, 0), ("log3", 5, 0), ("log4", 6, 0)]

def assemblyNames : List String :=
  ["stop", "add", "sub", "mul", "div", "sdiv", "mod", "smod", "exp", "not", "lt", "gt", "slt", "sgt", "eq", "iszero", "and",
    "or", "xor", "shl", "shr", "sar", "datasize", "dataoffset", "datacopy", "setimmutable", "loadimmutable"] ++ instructions.map (·.1)

def instructionSignature (name : String) : String :=
  (instructions.lookup name).elim (name ++ "()") fun (inputs, _) =>
    name ++ "(" ++ ",".intercalate (.replicate inputs "uint256") ++ ")"

/-- An instruction takes precedence over a function of the same signature. -/
def functions : Table String (List String) :=
  Table.update sourceFunctions
    (instructions.map fun (name, _, outputs) => (instructionSignature name, .replicate outputs "uint256"))

def results? (signature : String) : Option (List String) := functions.find? signature

def isFunction (signature : String) : Bool := (results? signature).isSome

end ContractAudit.Builtin
