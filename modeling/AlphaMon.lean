import AlphaMon.RandomCleaning
import AlphaMon.Cryptopan
import AlphaMon.SniObfuscation
import AlphaMon.TlsBounds
import AlphaMon.HttpObfuscation
import AlphaMon.HttpStructure
import AlphaMon.FlowIdentity
import AlphaMon.Exemption
import AlphaMon.UnknownPayload
import AlphaMon.ExternalAddress
import AlphaMon.SubnetLists
import AlphaMon.AddressRewriting
import AlphaMon.InterfaceRuns
import AlphaMon.DnsBounds
import AlphaMon.DnsFormat
import AlphaMon.DnsUsers
import AlphaMon.ExternalKeys
import AlphaMon.InterfaceMappings
import AlphaMon.AddressCache
import AlphaMon.UserLists
import AlphaMon.TableCleaning
import AlphaMon.PayloadRemoval
import AlphaMon.SubnetFiles6
import AlphaMon.NameDecoding
import AlphaMon.LineBuffer
import AlphaMon.Mirroring
import AlphaMon.StringEncryption
import AlphaMon.AddressHash
import AlphaMon.Ini
import AlphaMon.SentPseudonyms
import AlphaMon.Unconfigured
