import CrossChain.Values

/-! # The swap order record `XBridgeTransactionDescr`

The descriptor of one swap order (xbridgetransactiondescr.h): its members, the two
constructors, the private `copyFrom` behind the copy constructor and `operator=`, and
`operator<` on `created`; and the party record `XBridgeTransactionMember`.

`copyFrom_eq` says at once everything `copyFrom` does: the result is the source with
`created` merged by `keepEarlier`, `txtime` set to the clock, and the target's `packet`,
which `copyFrom` does not copy.  Every later proof about copies goes through it. -/
set_option autoImplicit false

namespace CrossChain

/-- `XBridgeTransactionDescr::State`. -/
inductive State where
  | trNew
  | trPending
  | trAccepting
  | trHold
  | trCreated
  | trSigned
  | trCommited
  | trFinished
  | trRollback
  | trDropped
  | trCancelled
  | trInvalid
  | trExpired
  deriving DecidableEq, Repr

/-- Modelled from the spec: xbridgepacket.h is not among the sources.  A
`XBridgePacketPtr` is null or points at the last protocol packet, here its bytes. -/
abbrev XBridgePacketPtr := Option (List UInt8)

/-- The members of `XBridgeTransactionDescr`, in the header's order.  Clock readings of
`second_clock::universal_time()` are whole tick counts. -/
structure XBridgeTransactionDescr where
  id : Uint256
  hubAddress : StdVector UInt8
  myAddress : StdVector UInt8
  «from» : StdVector UInt8
  fromCurrency : String
  fromAmount : UInt64
  «to» : StdVector UInt8
  toCurrency : String
  toAmount : UInt64
  state : State
  created : PTime
  txtime : PTime
  payTxId : Uint256
  payTx : String
  revTx : String
  packet : XBridgePacketPtr
  deriving DecidableEq, Repr

namespace XBridgeTransactionDescr

/-- `XBridgeTransactionDescr()` at clock reading `now`.  The constructor does not
initialise `fromAmount` and `toAmount`: they are whatever the storage held. -/
def construct (now : Int) (fromAmount toAmount : UInt64) : XBridgeTransactionDescr where
  id := 0
  hubAddress := .empty
  myAddress := .empty
  «from» := .empty
  fromCurrency := ""
  fromAmount := fromAmount
  «to» := .empty
  toCurrency := ""
  toAmount := toAmount
  state := .trNew
  created := .ticks now
  txtime := .ticks now
  payTxId := 0
  payTx := ""
  revTx := ""
  packet := none

/-- `copyFrom(d)` into `x` at clock reading `now`.  `packet` is not among the members it
copies. -/
def copyFrom (x d : XBridgeTransactionDescr) (now : Int) : XBridgeTransactionDescr :=
  { x with
    id := d.id
    «from» := d.«from»
    fromCurrency := d.fromCurrency
    fromAmount := d.fromAmount
    «to» := d.«to»
    toCurrency := d.toCurrency
    toAmount := d.toAmount
    state := d.state
    payTx := d.payTx
    revTx := d.revTx
    txtime := .ticks now
    created := x.created.keepEarlier d.created
    payTxId := d.payTxId
    hubAddress := d.hubAddress
    myAddress := d.myAddress }

/-- The copy constructor from `d` at clock reading `now`: members it leaves out of its
initialiser list are default-constructed (`packet` is null; the amounts, left
uninitialised, are overwritten), `state`, `created` and `txtime` are set, then
`copyFrom(d)` runs. -/
def copy (d : XBridgeTransactionDescr) (now : Int) : XBridgeTransactionDescr :=
  (construct now 0 0).copyFrom d now

/-- `x = d` for `d` another object than `x`, at clock reading `now`.  On `this == &d`
`operator=` returns at once; the container model of `DescrSwap` makes that check on
positions. -/
def assign (x d : XBridgeTransactionDescr) (now : Int) : XBridgeTransactionDescr :=
  x.copyFrom d now

/-- `operator<`: `created < d.created`.  `operator>` is `created > d.created`, the flipped
`operator<` of `ptime`, as Lean's `>` is. -/
instance : LT XBridgeTransactionDescr := ⟨fun a d => a.created < d.created⟩

instance (a d : XBridgeTransactionDescr) : Decidable (a < d) :=
  inferInstanceAs (Decidable (a.created < d.created))

/-- The members `copyFrom` copies: all but `created`, `txtime` and `packet`. -/
structure CopiedMembers where
  id : Uint256
  hubAddress : StdVector UInt8
  myAddress : StdVector UInt8
  «from» : StdVector UInt8
  fromCurrency : String
  fromAmount : UInt64
  «to» : StdVector UInt8
  toCurrency : String
  toAmount : UInt64
  state : State
  payTxId : Uint256
  payTx : String
  revTx : String
  deriving DecidableEq, Repr

def copied (d : XBridgeTransactionDescr) : CopiedMembers :=
  ⟨d.id, d.hubAddress, d.myAddress, d.«from», d.fromCurrency, d.fromAmount, d.«to»,
    d.toCurrency, d.toAmount, d.state, d.payTxId, d.payTx, d.revTx⟩

theorem copyFrom_eq (x d : XBridgeTransactionDescr) (now : Int) :
    x.copyFrom d now =
      { d with created := x.created.keepEarlier d.created, txtime := .ticks now,
               packet := x.packet } := rfl

@[simp] theorem copied_copyFrom (x d : XBridgeTransactionDescr) (now : Int) :
    (x.copyFrom d now).copied = d.copied := rfl

@[simp] theorem txtime_copyFrom (x d : XBridgeTransactionDescr) (now : Int) :
    (x.copyFrom d now).txtime = .ticks now := rfl

@[simp] theorem packet_copyFrom (x d : XBridgeTransactionDescr) (now : Int) :
    (x.copyFrom d now).packet = x.packet := rfl

@[simp] theorem created_construct (now : Int) (fromAmount toAmount : UInt64) :
    (construct now fromAmount toAmount).created = .ticks now := rfl

@[simp] theorem packet_construct (now : Int) (fromAmount toAmount : UInt64) :
    (construct now fromAmount toAmount).packet = none := rfl

theorem copy_eq (d : XBridgeTransactionDescr) (now : Int) :
    copy d now =
      { d with created := (PTime.ticks now).keepEarlier d.created, txtime := .ticks now,
               packet := none } := rfl

end XBridgeTransactionDescr

/-- `XBridgeTransactionMember` (xbridgetransactionmember.h): one party's addresses. -/
structure XBridgeTransactionMember where
  id : Uint256
  sourceAddr : StdVector UInt8
  destAddr : StdVector UInt8
  deriving DecidableEq, Repr

namespace XBridgeTransactionMember

/-- `XBridgeTransactionMember(id)`. -/
def ofId (id : Uint256) : XBridgeTransactionMember := ⟨id, .empty, .empty⟩

def isEmpty (m : XBridgeTransactionMember) : Bool :=
  m.sourceAddr.toList.isEmpty || m.destAddr.toList.isEmpty

def setSource (m : XBridgeTransactionMember) (addr : StdVector UInt8) : XBridgeTransactionMember :=
  { m with sourceAddr := addr }

def setDest (m : XBridgeTransactionMember) (addr : StdVector UInt8) : XBridgeTransactionMember :=
  { m with destAddr := addr }

end XBridgeTransactionMember

end CrossChain
