import ShardGossip.Handshake
import ShardGossip.Main
import ShardGossip.Network
import ShardGossip.Proofs.Accounts
import ShardGossip.Proofs.Agreement
import ShardGossip.Proofs.Attachment
import ShardGossip.Proofs.Bootstrap
import ShardGossip.Proofs.BridgedMerge
import ShardGossip.Proofs.CarriedOnce
import ShardGossip.Proofs.Cascade
import ShardGossip.Proofs.CommittedQueue
import ShardGossip.Proofs.Dialing
import ShardGossip.Proofs.DistinctProofs
import ShardGossip.Proofs.Electorate
import ShardGossip.Proofs.EvenSplit
import ShardGossip.Proofs.EventLayout
import ShardGossip.Proofs.Handover
import ShardGossip.Proofs.Latecomer
import ShardGossip.Proofs.OriginOrder
import ShardGossip.Proofs.PacketStrict
import ShardGossip.Proofs.Rebalancing
import ShardGossip.Proofs.Recovery
import ShardGossip.Proofs.Redelivery
import ShardGossip.Proofs.Refusals
import ShardGossip.Proofs.Testimony
import ShardGossip.Proofs.Transit
import ShardGossip.Proofs.WakeUp
import ShardGossip.Simulation.Script
